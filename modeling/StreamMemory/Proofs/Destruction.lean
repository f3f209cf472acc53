import StreamMemory.Proofs.Hazard
import StreamMemory.Proofs.Registration

/-!
# Destroying a stream

A stream is destroyed by a drain of its queue, and so it is synchronized. But to be destroyed its
queue is unregistered first. What running operations enqueue on the stream then goes to another
queue, which the drain does not know. So a drain that synchronizes a stream starts also what its
operations enqueue there (`cascade`), and a drain that destroys it leaves that behind: the stream is
registered again. The two agree only where no waiting operation enqueues on its own stream.
-/

set_option autoImplicit false

namespace StreamMemory

/-! ## Operations that enqueue -/

namespace Operation

def fails : Operation → Bool
  | [] => false
  | .panic :: _ => true
  | _ :: rest => fails rest

/-- What an operation enqueues on a stream before it ends or panics. -/
def spawned (s : StreamId) : Operation → List Operation
  | [] => []
  | .panic :: _ => []
  | .enqueue t acts :: rest => (if t = s then [acts] else []) ++ spawned s rest
  | _ :: rest => spawned s rest

mutual
/-- Whether an act opens no drain, nor does what it enqueues on a stream. -/
def actFlat (s : StreamId) : Act → Bool
  | .synchronize _ | .destroy _ => false
  | .enqueue t acts => t != s || flat s acts
  | _ => true

def flat (s : StreamId) : Operation → Bool
  | [] => true
  | a :: rest => actFlat s a && flat s rest
end

theorem queueWeight_spawned_le (s : StreamId) (op : Operation) :
    queueWeight (spawned s op) ≤ weight op := by
  induction op with
  | nil => exact Nat.le_refl _
  | cons a rest ih =>
    have hpos := actWeight_pos a
    rw [weight_cons]
    cases a with
    | panic => exact Nat.zero_le _
    | enqueue t acts =>
      have hact : actWeight (.enqueue t acts) = 2 + weight acts := by rw [actWeight]
      rw [spawned, queueWeight_append]
      split
      · rw [queueWeight_cons, queueWeight_nil]
        omega
      · rw [queueWeight_nil]
        omega
    | _ => exact Nat.le_trans ih (Nat.le_add_left _ _)

/-- All that is started if operations are started in order, and what they enqueue after them. -/
def cascade (s : StreamId) : List Operation → List Operation
  | [] => []
  | op :: ops => op :: cascade s (ops ++ spawned s op)
termination_by ops => queueWeight ops
decreasing_by
  have hspawned := queueWeight_spawned_le s op
  rw [queueWeight_append, queueWeight_cons]
  omega

variable {s : StreamId} {op : Operation} {ops done : List Operation}

theorem cascade_cons (op : Operation) (ops : List Operation) :
    cascade s (op :: ops) = op :: cascade s (ops ++ spawned s op) := by
  rw [cascade]

theorem queueWeight_flatMap_spawned_lt (h : done ≠ []) :
    queueWeight (done.flatMap (spawned s)) < queueWeight done := by
  have hle : ∀ ops : List Operation, queueWeight (ops.flatMap (spawned s)) ≤ queueWeight ops := by
    intro ops
    induction ops with
    | nil => exact Nat.le_refl _
    | cons op ops ih =>
      have hspawned := queueWeight_spawned_le s op
      rw [List.flatMap_cons, queueWeight_append, queueWeight_cons]
      omega
  cases done with
  | nil => exact absurd rfl h
  | cons op ops =>
    have hspawned := queueWeight_spawned_le s op
    have hops := hle ops
    rw [List.flatMap_cons, queueWeight_append, queueWeight_cons]
    omega

/-- What was started is settled by what waited, if it is that and what was enqueued meanwhile. -/
theorem eq_cascade (h : done = ops ++ done.flatMap (spawned s)) : done = cascade s ops := by
  induction done generalizing ops with
  | nil =>
    obtain rfl : ops = [] := by simpa using h.symm
    rw [cascade]
  | cons op done ih =>
    cases ops with
    | nil =>
      -- the operations would weigh less than themselves
      have hlt := queueWeight_flatMap_spawned_lt (s := s) (List.cons_ne_nil op done)
      rw [List.nil_append] at h
      rw [← h] at hlt
      exact absurd hlt (Nat.lt_irrefl _)
    | cons first ops =>
      rw [List.cons_append, List.cons.injEq, List.flatMap_cons, ← List.append_assoc] at h
      obtain ⟨rfl, hdone⟩ := h
      rw [cascade_cons, ← ih hdone]

theorem cascade_eq (ops : List Operation) :
    cascade s ops = ops ++ (cascade s ops).flatMap (spawned s) := by
  induction ops using cascade.induct (s := s) with
  | case1 => rw [cascade]; rfl
  | case2 op ops ih =>
    rw [cascade_cons, List.flatMap_cons, List.cons_append, ← List.append_assoc, ← ih]

theorem cascade_eq_self_iff : cascade s ops = ops ↔ ∀ op ∈ ops, spawned s op = [] := by
  rw [← List.flatMap_eq_nil_iff]
  constructor
  · intro h
    have heq := cascade_eq (s := s) ops
    rw [h] at heq
    exact List.append_cancel_left ((List.append_nil ops).trans heq) |>.symm
  · intro h
    apply (eq_cascade _).symm
    rw [h, List.append_nil]

end Operation

/-- The answer to whoever drained the operations of a stream. -/
def outcome (s : StreamId) (done : List Operation) : SyncResult :=
  if done.countP Operation.fails = 0 then .ok () else .error ⟨s, done.countP Operation.fails⟩

/-! ## Drains -/

theorem startedOn_note {e : Event} (h : e.works = false) (s : StreamId) (trace : List Event) :
    startedOn s (e :: trace) = startedOn s trace := by
  rw [startedOn_cons, startedOn?_of_not_works h]
  exact List.append_nil _

theorem enqueuedOn_note {e : Event} (h : e.works = false) (s : StreamId) (trace : List Event) :
    enqueuedOn s (e :: trace) = enqueuedOn s trace := by
  rw [enqueuedOn_cons, enqueuedOn?_of_not_works h]
  exact List.append_nil _

theorem Machine.startedOn_closeDrain (m : Machine) (f : Frame) (s : StreamId) :
    startedOn s (m.closeDrain f).trace = startedOn s m.trace := by
  unfold Machine.closeDrain
  split
  · rfl
  · dsimp only
    split
    · rfl
    · exact startedOn_note rfl s m.trace

/-- To release a block neither enqueues nor starts anything. -/
theorem Machine.trace_freeBlock {α : Type} {f : List Event → α}
    (hf : ∀ e trace, e.works = false → f (e :: trace) = f trace) (m : Machine) (s : StreamId)
    (r : ResourceId) (b : BlockId) (k : BlockKey) :
    f (m.freeBlock s r b k).trace = f m.trace := by
  rcases m.freeBlock_eq s r b k with he | ⟨e, -, he⟩
  · rw [he]
    exact hf _ _ rfl
  · rw [he]
    calc f (.reported s (.freed true) :: .logged (.freed k.stream k.bytes) :: .cached r k b ::
          .released ⟨b, r, k.bytes, k.alignment⟩ :: m.trace)
      _ = f (.cached r k b :: .released ⟨b, r, k.bytes, k.alignment⟩ :: m.trace) :=
        (hf _ _ rfl).trans (hf _ _ rfl)
      _ = f m.trace := (hf _ _ rfl).trans (hf _ _ rfl)

/-- What is enqueued on another stream does not get into the queue of a drain. -/
theorem Frame.Anchored.items_enqueue_of_ne {r : Registry Operation} {f : Frame}
    (h : f.Anchored r) (hr : r.WellFormed) {t : StreamId} (ht : t ≠ f.stream) (op : Operation) :
    (r.enqueue t op).items f.queue = r.items f.queue := by
  have hf := h.2
  by_cases hd : f.detached = true
  · rw [if_pos hd] at hf
    exact r.items_enqueue_of_unregistered h.1 hf op
  · rw [if_neg hd] at hf
    have hfind : (r.enqueue t op).find? f.stream = some f.queue := by
      rw [Registry.find?_enqueue, if_neg (Ne.symm ht)]
      exact hf
    rw [← Registry.waiting_of_find? _ hfind, hr.waiting_enqueue, if_neg (Ne.symm ht),
      r.waiting_of_find? hf]

/-- A drain of a stream has started `done`, and its operations open no other drain. -/
structure Run.Exhausts (m : Machine) (s : StreamId) (done : List Operation) (run : Run) : Prop where
  orderly : run.Orderly
  alone : run.outer = []
  stream : run.frame.stream = s
  rest : run.frame.rest.flat s = true
  queue : ∀ op ∈ run.machine.streams.items run.frame.queue, op.flat s = true
  started : startedOn s run.machine.trace = startedOn s m.trace ++ done
  others : ∀ t, t ≠ s → startedOn t run.machine.trace = startedOn t m.trace
  enqueued : enqueuedOn s run.machine.trace ++ run.frame.rest.spawned s =
    enqueuedOn s m.trace ++ done.flatMap (Operation.spawned s)
  failed : run.frame.failed + (if run.frame.rest.fails = true then 1 else 0) =
    done.countP Operation.fails
  /-- A queue that is not registered only gets shorter. -/
  detached : run.frame.detached = true →
    done ++ run.machine.streams.items run.frame.queue = m.streams.waiting s

namespace Run

variable {run next : Run} {m : Machine} {s : StreamId} {done : List Operation}

theorem step_of_rest {a : Act} {rest : Operation} (h : run.frame.rest = a :: rest) :
    run.step = .inr ({ run with frame := { run.frame with rest } }.perform a) := by
  unfold step
  rw [h]

theorem rest_of_inl {o : SyncResult × Machine} (h : run.step = .inl o) : run.frame.rest = [] := by
  cases hrest : run.frame.rest with
  | nil => rfl
  | cons a rest =>
    rw [step_of_rest hrest] at h
    cases h

namespace Exhausts

/-- An act that neither enqueues nor panics leaves the account as it is. -/
theorem report (h : run.Exhausts m s done) {a : Act} {rest : Operation}
    (hrest : run.frame.rest = a :: rest) (hspawned : Operation.spawned s (a :: rest) = rest.spawned s)
    (hfails : Operation.fails (a :: rest) = rest.fails) {machine : Machine}
    (ho : Run.Orderly { run with machine, frame := { run.frame with rest } })
    (hstreams : machine.streams = run.machine.streams)
    (hstarted : ∀ t, startedOn t machine.trace = startedOn t run.machine.trace)
    (henqueued : ∀ t, enqueuedOn t machine.trace = enqueuedOn t run.machine.trace) :
    Exhausts m s done { run with machine, frame := { run.frame with rest } } := by
  have hflat := h.rest
  rw [hrest, Operation.flat, Bool.and_eq_true] at hflat
  have henq := h.enqueued
  have hfail := h.failed
  rw [hrest, hspawned] at henq
  rw [hrest, hfails] at hfail
  refine ⟨ho, h.alone, h.stream, hflat.2, ?_, ?_, ?_, ?_, hfail, ?_⟩
  · dsimp only
    rw [hstreams]
    exact h.queue
  · exact (hstarted s).trans h.started
  · exact fun t ht => (hstarted t).trans (h.others t ht)
  · dsimp only
    rw [henqueued]
    exact henq
  · intro hd
    dsimp only
    rw [hstreams]
    exact h.detached hd

theorem panic (h : run.Exhausts m s done) {rest : Operation}
    (hrest : run.frame.rest = .panic :: rest)
    (ho : Run.Orderly ({ run with frame := { run.frame with rest } }.perform .panic)) :
    Exhausts m s done ({ run with frame := { run.frame with rest } }.perform .panic) := by
  have henq := h.enqueued
  have hfail := h.failed
  rw [hrest] at henq hfail
  refine ⟨ho, h.alone, h.stream, rfl, h.queue, ?_, ?_, ?_, hfail, h.detached⟩
  · exact (startedOn_note rfl s _).trans h.started
  · exact fun t ht => (startedOn_note rfl t _).trans (h.others t ht)
  · change enqueuedOn s (.reported run.frame.stream .panicked :: run.machine.trace) ++ [] = _
    rw [enqueuedOn_note rfl]
    exact henq

theorem enqueue (h : run.Exhausts m s done) {t : StreamId} {acts rest : Operation}
    (hrest : run.frame.rest = .enqueue t acts :: rest)
    (ho : Run.Orderly ({ run with frame := { run.frame with rest } }.perform (.enqueue t acts))) :
    Exhausts m s done ({ run with frame := { run.frame with rest } }.perform (.enqueue t acts)) := by
  have hflat := h.rest
  rw [hrest, Operation.flat, Bool.and_eq_true] at hflat
  have henq := h.enqueued
  have hfail := h.failed
  rw [hrest] at henq hfail
  have hanch : run.frame.Anchored run.machine.streams := h.orderly.anchored _ List.mem_cons_self
  have hstarted : ∀ u, startedOn u ({ run with frame := { run.frame with rest } }.perform
      (.enqueue t acts)).machine.trace = startedOn u run.machine.trace := by
    intro u
    change startedOn u (.reported _ .enqueued :: .enqueued t acts :: run.machine.trace) = _
    rw [startedOn_note rfl, startedOn_cons]
    exact List.append_nil _
  refine ⟨ho, h.alone, h.stream, hflat.2, ?_, ?_, ?_, ?_, hfail, ?_⟩
  · intro op hop
    change op ∈ (run.machine.streams.enqueue t acts).items run.frame.queue at hop
    by_cases ht : t = s
    · rcases Registry.mem_items_enqueue hop with hop | rfl
      · exact h.queue op hop
      · simpa [Operation.actFlat, ht] using hflat.1
    · rw [hanch.items_enqueue_of_ne h.orderly.registry (h.stream ▸ ht)] at hop
      exact h.queue op hop
  · exact (hstarted s).trans h.started
  · exact fun u hu => (hstarted u).trans (h.others u hu)
  · change enqueuedOn s (.reported _ .enqueued :: .enqueued t acts :: run.machine.trace) ++
      rest.spawned s = _
    rw [← henq, enqueuedOn_note rfl, enqueuedOn_cons, Operation.spawned]
    by_cases ht : t = s
    · simp [Event.enqueuedOn?, ht]
    · simp [Event.enqueuedOn?, ht]
  · intro hd
    have hfree := hanch.2
    rw [if_pos (show run.frame.detached = true from hd)] at hfree
    change done ++ (run.machine.streams.enqueue t acts).items run.frame.queue = _
    rw [Registry.items_enqueue_of_unregistered _ hanch.1 hfree]
    exact h.detached hd

theorem perform (h : run.Exhausts m s done) {a : Act} {rest : Operation}
    (hrest : run.frame.rest = a :: rest) :
    Exhausts m s done ({ run with frame := { run.frame with rest } }.perform a) := by
  have hflat := h.rest
  rw [hrest, Operation.flat, Bool.and_eq_true] at hflat
  have hr : Run.Orderly { run with frame := { run.frame with rest } } := h.orderly.frame rest _
  have ho := hr.perform a
  have hnote : ∀ r u, startedOn u (.reported run.frame.stream r :: run.machine.trace) =
      startedOn u run.machine.trace := fun r u => startedOn_note rfl u _
  have hnote' : ∀ r u, enqueuedOn u (.reported run.frame.stream r :: run.machine.trace) =
      enqueuedOn u run.machine.trace := fun r u => enqueuedOn_note rfl u _
  cases a with
  | panic => exact h.panic hrest ho
  | enqueue t acts => exact h.enqueue hrest ho
  | synchronize t => cases hflat.1
  | destroy t => cases hflat.1
  | free r b k =>
    have hstreams := streams_freeBlock run.machine run.frame.stream r b k
    exact h.report hrest rfl rfl ho hstreams
      (fun u => Machine.trace_freeBlock (fun e _ he => startedOn_note he u _) ..)
      (fun u => Machine.trace_freeBlock (fun e _ he => enqueuedOn_note he u _) ..)
  | mark label => exact h.report hrest rfl rfl ho rfl (hnote _) (hnote' _)
  | write b byte length offset => exact h.report hrest rfl rfl ho rfl (hnote _) (hnote' _)
  | read b length offset => exact h.report hrest rfl rfl ho rfl (hnote _) (hnote' _)
  | pending t => exact h.report hrest rfl rfl ho rfl (hnote _) (hnote' _)

theorem pop (h : run.Exhausts m s done) {op : Operation} {streams : Registry Operation}
    (hrest : run.frame.rest = []) (hp : run.machine.streams.pop run.frame.queue = some (op, streams))
    (ho : Run.Orderly { run with
      machine := { run.machine with streams }.emit (.started run.frame.stream op)
      frame := { run.frame with rest := op } }) :
    Exhausts m s (done ++ [op]) { run with
      machine := { run.machine with streams }.emit (.started run.frame.stream op)
      frame := { run.frame with rest := op } } := by
  obtain ⟨hitems, -, -, -⟩ := run.machine.streams.items_pop hp
  have hqueue := h.queue
  have hfail := h.failed
  have henq := h.enqueued
  have hstream := h.stream
  rw [hitems, List.forall_mem_cons] at hqueue
  rw [hrest] at hfail henq
  subst hstream
  refine ⟨ho, h.alone, rfl, hqueue.1, hqueue.2, ?_, ?_, ?_, ?_, ?_⟩
  · change startedOn run.frame.stream (.started run.frame.stream op :: run.machine.trace) = _
    rw [startedOn_cons, h.started, List.append_assoc]
    simp [Event.startedOn?]
  · intro t ht
    change startedOn t (.started run.frame.stream op :: run.machine.trace) = _
    rw [startedOn_cons, h.others t ht]
    simp [Event.startedOn?, Ne.symm ht]
  · have hnew : enqueuedOn run.frame.stream (.started run.frame.stream op :: run.machine.trace) =
        enqueuedOn run.frame.stream run.machine.trace :=
      (enqueuedOn_cons _ _ _).trans (List.append_nil _)
    change enqueuedOn run.frame.stream (.started run.frame.stream op :: run.machine.trace) ++
      op.spawned run.frame.stream = _
    rw [hnew, List.flatMap_append, ← List.append_assoc, ← henq]
    simp [Operation.spawned]
  · rw [List.countP_append, ← hfail]
    simp [Operation.fails, List.countP_cons]
  · intro hd
    have hdone := h.detached hd
    rw [hitems] at hdone
    change (done ++ [op]) ++ streams.items run.frame.queue = _
    rw [List.append_assoc]
    exact hdone

theorem step (h : run.Exhausts m s done) (hs : run.step = .inr next) :
    ∃ done, next.Exhausts m s done := by
  cases hrest : run.frame.rest with
  | cons a rest =>
    have hnext := (step_of_rest hrest).symm.trans hs
    obtain rfl := Sum.inr.inj hnext
    exact ⟨done, h.perform hrest⟩
  | nil =>
    have ho := h.orderly.step hs
    rcases Run.step_eq_inr hs with
      ⟨a, rest, hcons, -⟩ | ⟨op, streams, hp, rfl⟩ | ⟨f, outer, -, houter, -⟩
    · rw [hrest] at hcons
      cases hcons
    · exact ⟨done ++ [op], h.pop hrest hp ho⟩
    · rw [h.alone] at houter
      cases houter

/-- What was started and what is left is what waited at first and what was enqueued since. -/
theorem done_append_backlog (h : run.Exhausts m s done) (hm : m.Orderly) :
    done ++ backlog run.machine.streams [run.frame] s ++ run.frame.rest.spawned s =
      m.streams.waiting s ++ done.flatMap (Operation.spawned s) := by
  have hnow := h.orderly.history s
  have hpast := hm.history s
  have henq := h.enqueued
  rw [h.alone, h.started] at hnow
  rw [backlog_nil] at hpast
  rw [← hnow, ← hpast] at henq
  simpa only [List.append_assoc, List.append_cancel_left_eq] using henq

theorem result (h : run.Exhausts m s done) (hrest : run.frame.rest = []) :
    run.frame.result = outcome s done := by
  have hfail := h.failed
  rw [hrest] at hfail
  unfold Frame.result outcome
  rw [← hfail, h.stream]
  rfl

end Exhausts

end Run

namespace Machine

/-- A drain of a stream starts operations of that stream only, and tells how many of them failed. -/
structure Drains (m : Machine) (s : StreamId) (ops : List Operation) (o : SyncResult × Machine) :
    Prop where
  result : o.1 = outcome s ops
  started : startedOn s o.2.trace = startedOn s m.trace ++ ops
  others : ∀ t, t ≠ s → startedOn t o.2.trace = startedOn t m.trace

variable {m : Machine} {s : StreamId}

theorem drains_nil (m : Machine) (s : StreamId) : m.Drains s [] (.ok (), m) :=
  ⟨rfl, (List.append_nil _).symm, fun _ _ => rfl⟩

theorem exhausts_opened (hm : m.Orderly) (hflat : ∀ op ∈ m.streams.waiting s, op.flat s = true)
    {request : DrainRequest} {frame : Frame} {machine : Machine}
    (ho : m.openDrain request s = some (frame, machine)) :
    Run.Exhausts m s [] { machine, frame } := by
  have horderly := hm.opened ho
  obtain ⟨q, hq, rfl, rfl⟩ := openDrain_eq_some ho
  have hitems : ((if request.detaches s then m.streams.unregister s else m.streams).hold q).items q =
      m.streams.waiting s := by
    rw [m.streams.waiting_of_find? hq, Registry.items_hold]
    split <;> rfl
  refine ⟨horderly, rfl, rfl, rfl, ?_, (List.append_nil _).symm, fun _ _ => rfl, rfl, rfl, ?_⟩
  · exact fun op hop => hflat op (hitems ▸ hop)
  · exact fun _ => hitems

/-- A drain leaves on its stream what its operations enqueued there and it did not start. -/
theorem drain_flat (hm : m.Orderly) (hflat : ∀ op ∈ m.streams.waiting s, op.flat s = true)
    (request : DrainRequest) :
    ∃ done, m.Drains s done (m.drain request s) ∧
      done ++ (m.drain request s).2.streams.waiting s =
        m.streams.waiting s ++ done.flatMap (Operation.spawned s) ∧
      (request.detaches s = true → done = m.streams.waiting s) ∧
      (request.detaches s = false → (m.drain request s).2.streams.waiting s = []) := by
  unfold drain
  split
  · rename_i hnone
    have hwaiting : m.streams.waiting s = [] := by
      unfold Registry.waiting
      rw [openDrain_eq_none hnone]
    exact ⟨[], drains_nil m s, (List.append_nil _).symm, fun _ => hwaiting.symm, fun _ => hwaiting⟩
  · rename_i frame machine ho
    apply Run.finish_induction
      (P := fun run => (∃ done, run.Exhausts m s done) ∧ run.Serves request s)
      (Q := fun o => ∃ done, m.Drains s done o ∧
        done ++ o.2.streams.waiting s = m.streams.waiting s ++ done.flatMap (Operation.spawned s) ∧
        (request.detaches s = true → done = m.streams.waiting s) ∧
        (request.detaches s = false → o.2.streams.waiting s = []))
    · exact fun _ _ ⟨⟨_, hr⟩, hserves⟩ hs => ⟨hr.step hs, hserves.step hs⟩
    · rintro run o ⟨⟨done, hr⟩, hserves⟩ hs
      have hrest := Run.rest_of_inl hs
      obtain ⟨hpop, -, rfl⟩ := Run.step_eq_inl hs
      have hitems := (run.machine.streams.pop_eq_none_iff run.frame.queue).mp hpop
      have hdetached : run.frame.detached = request.detaches s := by
        unfold Run.Serves Run.root at hserves
        rw [hr.alone] at hserves
        unfold Frame.detached
        rw [← hserves.1, ← hserves.2]
        rfl
      -- the queue of the drain is empty, so all that is left waits in the registry
      have hdone := hr.done_append_backlog hm
      rw [backlog_cons, hitems, ite_self, List.nil_append, backlog_nil, hrest] at hdone
      refine ⟨done, ⟨hr.result hrest, ?_, ?_⟩, ?_, ?_, ?_⟩
      · exact (startedOn_closeDrain _ _ s).trans hr.started
      · exact fun t ht => (startedOn_closeDrain _ _ t).trans (hr.others t ht)
      · rw [waiting_closeDrain]
        exact (List.append_nil _).symm.trans hdone
      · intro hd
        have hall := hr.detached (hdetached.trans hd)
        rwa [hitems, List.append_nil] at hall
      · intro hd
        have hfind := (hr.orderly.anchored _ List.mem_cons_self).2
        rw [hdetached, hd, hr.stream] at hfind
        rw [waiting_closeDrain, Registry.waiting_of_find? _ hfind]
        exact hitems
    · refine ⟨⟨[], exhausts_opened hm hflat ho⟩, ?_⟩
      obtain ⟨q, -, rfl, rfl⟩ := openDrain_eq_some ho
      exact ⟨rfl, rfl⟩

/-- To synchronize a stream starts all that waits there, and what is enqueued there meanwhile. -/
theorem synchronize_flat (hm : m.Orderly) (hflat : ∀ op ∈ m.streams.waiting s, op.flat s = true) :
    m.Drains s (Operation.cascade s (m.streams.waiting s)) (m.synchronize s) := by
  obtain ⟨done, hdrains, hleft, -, hnone⟩ := drain_flat hm hflat .synchronize
  rw [hnone rfl, List.append_nil] at hleft
  rw [← Operation.eq_cascade hleft]
  exact hdrains

/-- To destroy a stream starts all that waits there, and leaves what is enqueued there meanwhile. -/
theorem destroy_flat (hm : m.Orderly) (hs : s ≠ defaultStream)
    (hflat : ∀ op ∈ m.streams.waiting s, op.flat s = true) :
    m.Drains s (m.streams.waiting s) (m.destroy s) ∧ (m.destroy s).2.streams.waiting s =
      (m.streams.waiting s).flatMap (Operation.spawned s) := by
  obtain ⟨done, hdrains, hleft, hdone, -⟩ := drain_flat hm hflat .destroy
  obtain rfl := hdone (by simpa [DrainRequest.detaches] using hs)
  exact ⟨hdrains, List.append_cancel_left hleft⟩

theorem Tidy.find?_eq_none_iff (h : m.Tidy) (s : StreamId) :
    m.streams.find? s = none ↔ m.streams.waiting s = [] := by
  rw [← Option.not_isSome_iff_eq_none, h.find?_isSome_iff, pending, List.length_pos_iff,
    Classical.not_not]

/-- A stream whose operations open no drains is destroyed and synchronized in the same order with
the same answer, but for what its operations enqueue on it. That is started only if the stream is
synchronized; if it is destroyed, it is registered again, and waits. -/
theorem destroy_leaves_spawned {env : Environment} {cs : List Call} {m : Machine}
    {s : StreamId} (hm : m = (start env).run cs) (hs : s ≠ defaultStream)
    (hflat : ∀ op ∈ m.streams.waiting s, op.flat s = true) :
    m.Drains s (m.streams.waiting s) (m.destroy s) ∧
      m.Drains s (Operation.cascade s (m.streams.waiting s)) (m.synchronize s) ∧
      (m.destroy s).2.streams.waiting s =
        (m.streams.waiting s).flatMap (Operation.spawned s) ∧
      (m.synchronize s).2.streams.find? s = none ∧
      ((m.destroy s).2.streams.find? s = none ↔
        ∀ op ∈ m.streams.waiting s, op.spawned s = []) ∧
      (startedOn s (m.destroy s).2.trace = startedOn s (m.synchronize s).2.trace ↔
        ∀ op ∈ m.streams.waiting s, op.spawned s = []) := by
  have htidy : m.Tidy := hm ▸ tidy_run env cs
  obtain ⟨hdestroy, hleft⟩ := destroy_flat htidy.orderly hs hflat
  have hsync := synchronize_flat htidy.orderly hflat
  refine ⟨hdestroy, hsync, hleft, htidy.find?_synchronize s, ?_, ?_⟩
  · have hdestroyed : (m.destroy s).2.Tidy := htidy.drain .destroy s
    rw [hdestroyed.find?_eq_none_iff, hleft, List.flatMap_eq_nil_iff]
  · rw [hdestroy.started, hsync.started, List.append_cancel_left_eq, eq_comm]
    exact Operation.cascade_eq_self_iff

/-- An operation waits that enqueues another one on its own stream. -/
def spawning : Machine :=
  (start {}).run [.createStream, .enqueue 1 [.enqueue 1 [.mark "inner"]]]

theorem flat_spawning : ∀ op ∈ spawning.streams.waiting 1, op.flat 1 = true := by
  intro op hop
  obtain rfl : op = [.enqueue 1 [.mark "inner"]] := List.mem_singleton.mp hop
  decide

theorem destroy_leaves_inner :
    spawning.Drains 1 [[.enqueue 1 [.mark "inner"]]] (spawning.destroy 1) ∧
      (spawning.destroy 1).2.streams.waiting 1 = [[.mark "inner"]] := by
  obtain ⟨hdestroy, -, hleft, -, -, -⟩ :=
    destroy_leaves_spawned (m := spawning) rfl (by decide) flat_spawning
  exact ⟨hdestroy, hleft⟩

/-- Not all that a synchronization starts is started if the stream is destroyed. -/
theorem destroy_ne_synchronize :
    startedOn 1 (spawning.destroy 1).2.trace ≠ startedOn 1 (spawning.synchronize 1).2.trace ∧
      (spawning.destroy 1).2.pending 1 = 1 ∧
      (spawning.destroy 1).2.streams.find? 1 ≠ none := by
  have htidy : spawning.Tidy := tidy_run _ _
  have hwaiting : spawning.streams.waiting 1 = [[.enqueue 1 [.mark "inner"]]] := rfl
  obtain ⟨hdestroy, hleft⟩ := destroy_flat htidy.orderly (by decide) flat_spawning
  have hsync := synchronize_flat htidy.orderly flat_spawning
  have hdestroyed : (spawning.destroy 1).2.Tidy := htidy.drain .destroy 1
  have hpending : (spawning.destroy 1).2.pending 1 = 1 := congrArg List.length hleft
  refine ⟨?_, hpending, ?_⟩
  · rw [hdestroy.started, hsync.started, Ne, List.append_cancel_left_eq, hwaiting, eq_comm,
      Operation.cascade_eq_self_iff, List.forall_mem_singleton]
    exact List.cons_ne_nil _ _
  · apply Option.isSome_iff_ne_none.mp
    rw [hdestroyed.find?_isSome_iff, hpending]
    exact Nat.one_pos

end Machine

end StreamMemory
