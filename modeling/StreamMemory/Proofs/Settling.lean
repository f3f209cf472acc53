import StreamMemory.Proofs.Notices
import StreamMemory.Proofs.Restraint

/-!
# What a synchronization settles

Operations that neither open drains nor enqueue anything on other streams concern nothing but their
own stream. A drain of it then forgets its queue and touches no other one (`Registry.settle`), and
what there is to say about a stream afterwards depends on what there was to say about it before
(`Standing.settle`). Streams can be settled in any order.
-/

set_option autoImplicit false

namespace StreamMemory

/-! ## The registry -/

namespace Registry

variable {α : Type}

/-- Empties the queue of a stream and unregisters it. -/
def settle (r : Registry α) (s : StreamId) : Registry α :=
  match r.find? s with
  | some q => (r.modify q fun x => { x with items := [] }).unregister s
  | none => r

theorem settle_of_some {r : Registry α} {s : StreamId} {q : QueueId} (h : r.find? s = some q) :
    r.settle s = (r.modify q fun x => { x with items := [] }).unregister s := by
  unfold settle
  rw [h]

theorem modify_modify (r : Registry α) (q : QueueId) (f g : Queue α → Queue α) :
    (r.modify q f).modify q g = r.modify q (g ∘ f) :=
  congrArg (fun queues => { r with queues }) (List.modify_modify_eq f g q r.queues)

/-- What is enqueued on a registered stream is appended to its queue. -/
theorem enqueue_of_find? {r : Registry α} {s : StreamId} {q : QueueId} (h : r.find? s = some q)
    (a : α) : r.enqueue s a = r.push q a := by
  have hqueue : r.queue s = (q, r.hold q) := by
    unfold queue
    rw [h]
  unfold enqueue
  rw [hqueue]
  unfold hold push release
  rw [modify_modify, modify_modify]
  rfl

end Registry

/-! ## Operations that keep to their stream -/

/-- Acts that open no drain, enqueue only on the stream of their operation, and release nothing to a
resource. -/
def domestic (r : ResourceId) (s : StreamId) : Act → Bool
  | .synchronize _ | .destroy _ => false
  | .enqueue t _ => t == s
  | .free q _ _ => q != r
  | _ => true

/-- The answer to whoever drained a stream of which so many operations failed. -/
def verdict (s : StreamId) (n : Nat) : SyncResult := if n = 0 then .ok () else .error ⟨s, n⟩

/-- What a drain notes in the log. -/
def remarks (s : StreamId) (n : Nat) : List Notice := if n = 0 then [] else [.noted ⟨s, n⟩]

/-- What a drain leaves whose operations keep to their stream `s`, if `n` of them failed. -/
structure Machine.Clears (m : Machine) (s : StreamId) (n : Nat) (o : SyncResult × Machine) :
    Prop where
  answer : o.1 = verdict s n
  streams : o.2.streams = m.streams.settle s
  notices : notices o.2.trace = notices m.trace ++ remarks s n
  panics : ∀ t, panics t o.2.trace = panics t m.trace + if s = t then n else 0

/-- A drain of a queue whose operations keep to their stream. The queue is held once more than
before, and has other operations; all other queues are as they were. -/
structure Run.Secluded (m : Machine) (s : StreamId) (q : QueueId) (run : Run) : Prop where
  alone : run.outer = []
  request : run.frame.request = .synchronize
  stream : run.frame.stream = s
  queue : run.frame.queue = q
  streams : ∃ items, run.machine.streams = (m.streams.hold q).modify q fun x => { x with items }
  notices : notices run.machine.trace = notices m.trace
  panics : ∀ t, panics t run.machine.trace =
    panics t m.trace + if s = t then run.frame.failed else 0

namespace Run.Secluded

variable {m : Machine} {s : StreamId} {q : QueueId} {run next : Run} {r : ResourceId}

theorem find?_eq (h : run.Secluded m s q) (t : StreamId) :
    run.machine.streams.find? t = m.streams.find? t := by
  obtain ⟨items, hstreams⟩ := h.streams
  rw [hstreams]
  rfl

/-- What is noted of neither panics nor failures, and leaves the streams alone. -/
theorem note (h : run.Secluded m s q) (rest : Operation) {machine : Machine}
    (hstreams : machine.streams = run.machine.streams)
    (hnotices : StreamMemory.notices machine.trace = StreamMemory.notices run.machine.trace)
    (hpanics : ∀ t, StreamMemory.panics t machine.trace =
      StreamMemory.panics t run.machine.trace) :
    Secluded m s q { run with machine, frame := { run.frame with rest } } :=
  ⟨h.alone, h.request, h.stream, h.queue, hstreams ▸ h.streams, hnotices.trans h.notices,
    fun t => (hpanics t).trans (h.panics t)⟩

theorem panic (h : run.Secluded m s q) :
    Secluded m s q (run.perform .panic) := by
  refine ⟨h.alone, h.request, h.stream, h.queue, h.streams, h.notices, fun t => ?_⟩
  change StreamMemory.panics t (.reported run.frame.stream .panicked :: run.machine.trace) =
    StreamMemory.panics t m.trace + if s = t then run.frame.failed + 1 else 0
  rw [panics_cons, h.panics t]
  by_cases ht : s = t
  · simp only [Event.panicked?, h.stream, ht, if_true]
    omega
  · simp [Event.panicked?, h.stream, ht]

theorem enqueue (h : run.Secluded m s q) (hq : m.streams.find? s = some q) (acts : Operation) :
    Secluded m s q (run.perform (.enqueue s acts)) := by
  obtain ⟨items, hstreams⟩ := h.streams
  refine ⟨h.alone, h.request, h.stream, h.queue, ⟨items ++ [acts], ?_⟩, h.notices, h.panics⟩
  change run.machine.streams.enqueue s acts = _
  rw [Registry.enqueue_of_find? ((h.find?_eq s).trans hq), hstreams]
  exact Registry.modify_modify _ _ _ _

theorem perform (h : run.Secluded m s q) (hq : m.streams.find? s = some q) {a : Act}
    (ha : domestic r run.frame.stream a = true) : Secluded m s q (run.perform a) := by
  cases a with
  | panic => exact h.panic
  | enqueue t acts =>
    obtain rfl : t = s := (eq_of_beq ha).trans h.stream
    exact h.enqueue hq acts
  | synchronize t => cases ha
  | destroy t => cases ha
  | free p b k =>
    have hfree : StreamMemory.notices (run.machine.freeBlock run.frame.stream p b k).trace =
          StreamMemory.notices run.machine.trace ∧
        ∀ t, StreamMemory.panics t (run.machine.freeBlock run.frame.stream p b k).trace =
          StreamMemory.panics t run.machine.trace := by
      rcases run.machine.freeBlock_eq run.frame.stream p b k with hf | ⟨e, -, hf⟩
      · rw [hf]
        exact ⟨rfl, fun _ => rfl⟩
      · rw [hf]
        exact ⟨rfl, fun _ => rfl⟩
    exact h.note run.frame.rest (streams_freeBlock run.machine run.frame.stream p b k) hfree.1 hfree.2
  | _ => exact h.note run.frame.rest rfl rfl fun _ => rfl

theorem step (h : run.Secluded m s q) (hq : m.streams.find? s = some q)
    (hr : run.Restrained (domestic r)) (hs : run.step = .inr next) : next.Secluded m s q := by
  rcases Run.step_eq_inr hs with
    ⟨a, rest, hcons, rfl⟩ | ⟨op, streams, hp, rfl⟩ | ⟨f, outer, -, houter, rfl⟩
  · have hrest := hr.rest _ List.mem_cons_self
    rw [hcons, Operation.keeps_cons_iff] at hrest
    have hn : Secluded m s q { run with frame := { run.frame with rest } } :=
      h.note rest rfl rfl fun _ => rfl
    exact hn.perform hq (Operation.allowed_of_actKeeps hrest.1)
  · obtain ⟨items, hstreams⟩ := h.streams
    refine ⟨h.alone, h.request, h.stream, h.queue, ?_, h.notices, h.panics⟩
    rw [h.queue] at hp
    unfold Registry.pop at hp
    split at hp
    · cases hp
    · rename_i rest hitems
      cases hp
      refine ⟨rest, ?_⟩
      change run.machine.streams.modify q _ = _
      rw [hstreams]
      exact Registry.modify_modify _ _ _ _
  · rw [h.alone] at houter
    cases houter

/-- What such a drain leaves when it is over. -/
theorem last (h : run.Secluded m s q) (hq : m.streams.find? s = some q) (hm : m.streams.WellFormed)
    (ht : run.Tidy) {o : SyncResult × Machine} (hs : run.step = .inl o) :
    ∃ n, m.Clears s n o := by
  obtain ⟨hpop, -, rfl⟩ := Run.step_eq_inl hs
  have hd : run.frame.detached = false := by
    unfold Frame.detached
    rw [h.request]
    rfl
  refine ⟨run.frame.failed, ?_, ?_, ?_, ?_⟩
  · unfold Frame.result
    rw [h.stream]
    rfl
  · have hprune := ht.needed.prunable ht.orderly hpop hd
    rw [Machine.streams_closeDrain, hd, if_neg Bool.false_ne_true, Registry.prune, if_pos hprune,
      h.stream, h.queue, Registry.settle_of_some hq]
    obtain ⟨items, hstreams⟩ := h.streams
    rw [h.queue, Registry.pop_eq_none_iff, hstreams] at hpop
    obtain rfl : items = [] := by
      have hlt := hm.lt_of_find? hq
      simpa [Registry.items, Registry.modify, Registry.hold, hlt] using hpop
    rw [hstreams]
    change (((m.streams.hold q).modify q _).release q).unregister s = _
    unfold Registry.hold Registry.release
    rw [Registry.modify_modify, Registry.modify_modify]
    rfl
  · rw [← h.notices]
    rcases Nat.eq_zero_or_pos run.frame.failed with hf | hf
    · rw [run.machine.trace_closeDrain_of_eq_zero hf, remarks, if_pos hf, List.append_nil]
    · rw [run.machine.trace_closeDrain_of_pos hf hd, remarks, if_neg (Nat.ne_of_gt hf), notices_cons,
        ← h.stream]
      rfl
  · intro t
    rw [← h.panics t]
    rcases Nat.eq_zero_or_pos run.frame.failed with hf | hf
    · rw [run.machine.trace_closeDrain_of_eq_zero hf]
    · rw [run.machine.trace_closeDrain_of_pos hf hd]
      rfl

end Run.Secluded

namespace Machine

variable {m : Machine} {r : ResourceId}

end Machine

/-! ## Streams -/

def Notice.stream : Notice → StreamId
  | noted f | answered _ f => f.stream
  | passedOver s _ => s

/-- What there is to say about a stream: what waits on it and what was started, how many of its
operations panicked, and who was told of failures. -/
structure Standing where
  waiting : List Operation
  started : List Operation
  failed : Nat
  notices : List Notice

/-- What is told of a stream if so many of its operations failed and nobody wants to know. -/
def lament (s : StreamId) (n : Nat) : List Notice :=
  if n = 0 then [] else [.noted ⟨s, n⟩, .passedOver s (.stream ⟨s, n⟩)]

/-- A stream on which everything was started. -/
def Standing.settle (s : StreamId) (x : Standing) : Standing where
  waiting := []
  started := x.started ++ Operation.cascade s x.waiting
  failed := x.failed + (Operation.cascade s x.waiting).countP Operation.fails
  notices := x.notices ++ lament s ((Operation.cascade s x.waiting).countP Operation.fails)

namespace Machine

variable {m : Machine} {r : ResourceId}

end Machine

end StreamMemory
