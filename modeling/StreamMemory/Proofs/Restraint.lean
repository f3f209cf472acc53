import StreamMemory.Proofs.Destruction

/-!
# What operations leave alone

Operations that wait may be known to keep to some acts. What they enqueue is judged by the acts that
are allowed on its own stream, so whatever drains start later keeps to these acts as well
(`Restrained`). A property of machines that no allowed act breaks is then kept by drains and by
release passes (`Respected`).
-/

set_option autoImplicit false

namespace StreamMemory

/-! ## Operations -/

namespace Operation

mutual
/-- Whether an act is allowed to operations of a stream, and whatever it enqueues to those of the
stream on which it will wait. -/
def actKeeps (allowed : StreamId → Act → Bool) (s : StreamId) : Act → Bool
  | .enqueue t acts => allowed s (.enqueue t acts) && keeps allowed t acts
  | a => allowed s a

def keeps (allowed : StreamId → Act → Bool) (s : StreamId) : Operation → Bool
  | [] => true
  | a :: rest => actKeeps allowed s a && keeps allowed s rest
end

variable {allowed : StreamId → Act → Bool} {s t : StreamId}

theorem keeps_cons_iff {a : Act} {rest : Operation} :
    keeps allowed s (a :: rest) = true ↔
      actKeeps allowed s a = true ∧ keeps allowed s rest = true := by
  rw [keeps, Bool.and_eq_true]

theorem actKeeps_enqueue_iff {acts : Operation} :
    actKeeps allowed s (.enqueue t acts) = true ↔
      allowed s (.enqueue t acts) = true ∧ keeps allowed t acts = true := by
  rw [actKeeps, Bool.and_eq_true]

theorem allowed_of_actKeeps {a : Act} (h : actKeeps allowed s a = true) : allowed s a = true := by
  cases a with
  | enqueue t acts => exact (actKeeps_enqueue_iff.mp h).1
  | _ => exact h

/-- Acts that enqueue an operation are told apart, the others are all alike. -/
theorem nested_induction {P : Operation → Prop} (nil : P [])
    (enqueue : ∀ t acts rest, P acts → P rest → P (.enqueue t acts :: rest))
    (other : ∀ a rest, (∀ t acts, a ≠ .enqueue t acts) → P rest → P (a :: rest))
    (op : Operation) : P op := by
  induction hn : weight op using Nat.strongRecOn generalizing op with
  | _ n ih =>
    subst hn
    cases op with
    | nil => exact nil
    | cons a rest =>
      have hpos := actWeight_pos a
      have hrest : P rest := ih _ (by rw [weight_cons]; omega) rest rfl
      cases a with
      | enqueue t acts =>
        have hacts : weight acts < weight (.enqueue t acts :: rest) := by
          rw [weight_cons, actWeight]
          omega
        exact enqueue t acts rest (ih _ hacts acts rfl) hrest
      | _ => exact other _ rest (fun _ _ => Act.noConfusion) hrest

theorem actKeeps_of_ne_enqueue {a : Act} (h : ∀ t acts, a ≠ .enqueue t acts) :
    actKeeps allowed s a = allowed s a := by
  cases a with
  | enqueue t acts => exact absurd rfl (h t acts)
  | _ => rfl

theorem keeps_mono {allowed' : StreamId → Act → Bool}
    (h : ∀ s a, allowed s a = true → allowed' s a = true) {s : StreamId} {op : Operation}
    (hop : keeps allowed s op = true) : keeps allowed' s op = true := by
  induction op using nested_induction generalizing s with
  | nil => rfl
  | enqueue t acts rest ihacts ih =>
    rw [keeps_cons_iff, actKeeps_enqueue_iff] at hop ⊢
    exact ⟨⟨h _ _ hop.1.1, ihacts hop.1.2⟩, ih hop.2⟩
  | other a rest ha ih =>
    rw [keeps_cons_iff, actKeeps_of_ne_enqueue ha] at hop ⊢
    exact ⟨h _ _ hop.1, ih hop.2⟩

end Operation

/-! ## Traces -/

theorem pendingOn_note {e : Event} (h : e.works = false) (s : StreamId) (trace : List Event) :
    pendingOn s (e :: trace) = pendingOn s trace := by
  unfold pendingOn
  rw [startedOn_note h, enqueuedOn_note h]

theorem mem_pendingOn_of_started {s t : StreamId} {op op' : Operation} {trace : List Event}
    (h : op ∈ pendingOn s (.started t op' :: trace)) : op ∈ pendingOn s trace := by
  unfold pendingOn at h ⊢
  rw [enqueuedOn_cons, startedOn_cons, List.length_append] at h
  rw [show (Event.enqueuedOn? s (.started t op')).toList = [] from rfl, List.append_nil] at h
  exact List.drop_subset_drop_left _ (Nat.le_add_right _ _) h

theorem Machine.pendingOn_closeDrain (m : Machine) (f : Frame) (s : StreamId) :
    pendingOn s (m.closeDrain f).trace = pendingOn s m.trace := by
  unfold Machine.closeDrain
  split
  · rfl
  · dsimp only
    split
    · rfl
    · exact pendingOn_note rfl s m.trace

namespace Orderly

variable {r : Registry Operation} {trace : List Event} {fs : List Frame}

theorem pendingOn_eq (h : Orderly r trace fs) (s : StreamId) :
    pendingOn s trace = backlog r fs s := by
  unfold pendingOn
  rw [← h.history s, List.drop_left]

theorem mem_pendingOn_of_enqueued (h : Orderly r trace fs) {s t : StreamId} {op acts : Operation}
    (hop : op ∈ pendingOn s (.enqueued t acts :: trace)) :
    op ∈ pendingOn s trace ∨ t = s ∧ op = acts := by
  have hlen : (startedOn s trace).length ≤ (enqueuedOn s trace).length := by
    rw [← h.history s, List.length_append]
    exact Nat.le_add_right _ _
  have hstarted : startedOn s (.enqueued t acts :: trace) = startedOn s trace :=
    (startedOn_cons _ _ _).trans (List.append_nil _)
  unfold pendingOn at hop ⊢
  rw [hstarted, enqueuedOn_cons, List.drop_append_of_le_length hlen, List.mem_append] at hop
  refine hop.imp_right fun hnew => ?_
  by_cases ht : t = s
  · simp only [Event.enqueuedOn?, if_pos ht, Option.toList_some, List.mem_singleton] at hnew
    exact ⟨ht, hnew⟩
  · simp only [Event.enqueuedOn?, if_neg ht, Option.toList_none, List.not_mem_nil] at hnew

end Orderly

/-! ## Drains -/

/-- Whatever runs, and whatever waits, keeps to what is allowed. -/
structure Run.Restrained (allowed : StreamId → Act → Bool) (run : Run) : Prop where
  orderly : run.Orderly
  rest : ∀ f ∈ run.frame :: run.outer, f.rest.keeps allowed f.stream = true
  pending : ∀ s, ∀ op ∈ pendingOn s run.machine.trace, op.keeps allowed s = true

namespace Run.Restrained

variable {allowed : StreamId → Act → Bool} {run next : Run}

theorem nest (h : run.Restrained allowed) (request : DrainRequest) (s : StreamId) :
    (run.nest request s).Restrained allowed := by
  have horderly := h.orderly.nest request s
  have hpending : ∀ e, e.works = false → ∀ t, ∀ op ∈ pendingOn t (e :: run.machine.trace),
      op.keeps allowed t = true := by
    intro e he t op hop
    rw [pendingOn_note he] at hop
    exact h.pending t op hop
  unfold Run.nest at horderly ⊢
  dsimp only at horderly ⊢
  split
  · rename_i hd
    rw [if_pos hd] at horderly
    exact ⟨horderly, h.rest, hpending _ rfl⟩
  · rename_i hd
    rw [if_neg hd] at horderly
    split
    · rename_i f m ho
      rw [ho] at horderly
      obtain ⟨q, -, rfl, rfl⟩ := Machine.openDrain_eq_some ho
      exact ⟨horderly, List.forall_mem_cons.mpr ⟨rfl, h.rest⟩, hpending _ rfl⟩
    · rename_i ho
      rw [ho] at horderly
      refine ⟨horderly, h.rest, ?_⟩
      intro t op hop
      have hop' : op ∈ pendingOn t (.reported run.frame.stream request.announcement ::
          run.machine.trace) := by
        rwa [← pendingOn_note (e := .reported run.frame.stream (request.answer (.ok ()))) rfl]
      exact hpending _ rfl t op hop'

theorem perform (h : run.Restrained allowed) {a : Act}
    (ha : Operation.actKeeps allowed run.frame.stream a = true) :
    (run.perform a).Restrained allowed := by
  have horderly := h.orderly.perform a
  have hpending : ∀ e, e.works = false → ∀ t, ∀ op ∈ pendingOn t (e :: run.machine.trace),
      op.keeps allowed t = true := by
    intro e he t op hop
    rw [pendingOn_note he] at hop
    exact h.pending t op hop
  cases a with
  | panic =>
    refine ⟨horderly, ?_, hpending _ rfl⟩
    exact List.forall_mem_cons.mpr ⟨rfl, (List.forall_mem_cons.mp h.rest).2⟩
  | enqueue t acts =>
    have hacts := (Operation.actKeeps_enqueue_iff.mp ha).2
    refine ⟨horderly, h.rest, ?_⟩
    intro s op hop
    have hop' : op ∈ pendingOn s (.enqueued t acts :: run.machine.trace) := by
      rwa [← pendingOn_note (e := .reported run.frame.stream .enqueued) rfl]
    rcases h.orderly.mem_pendingOn_of_enqueued hop' with hold | ⟨rfl, rfl⟩
    · exact h.pending s op hold
    · exact hacts
  | synchronize t => exact h.nest .synchronize t
  | destroy t => exact h.nest .destroy t
  | free r b k =>
    refine ⟨horderly, h.rest, ?_⟩
    intro s op hop
    have htrace : pendingOn s (run.machine.freeBlock run.frame.stream r b k).trace =
        pendingOn s run.machine.trace :=
      Machine.trace_freeBlock (fun e trace he => pendingOn_note he s trace) ..
    exact h.pending s op (htrace ▸ hop)
  | _ => exact ⟨horderly, h.rest, hpending _ rfl⟩

theorem step (h : run.Restrained allowed) (hs : run.step = .inr next) :
    next.Restrained allowed := by
  have horderly := h.orderly.step hs
  obtain ⟨hrest, houter⟩ := List.forall_mem_cons.mp h.rest
  rcases Run.step_eq_inr hs with
    ⟨a, rest, hcons, rfl⟩ | ⟨op, streams, hp, rfl⟩ | ⟨f, outer, -, hframes, rfl⟩
  · rw [hcons, Operation.keeps_cons_iff] at hrest
    have hr : Run.Restrained allowed { run with frame := { run.frame with rest } } :=
      ⟨h.orderly.frame rest _, List.forall_mem_cons.mpr ⟨hrest.2, houter⟩, h.pending⟩
    exact hr.perform hrest.1
  · refine ⟨horderly, List.forall_mem_cons.mpr ⟨?_, houter⟩, ?_⟩
    · -- the operation is the first one that waits on the stream
      have hbacklog := h.orderly.backlog_pop hp run.frame.stream
      apply h.pending run.frame.stream
      rw [h.orderly.pendingOn_eq, hbacklog, if_pos rfl]
      exact List.mem_append_left _ (List.mem_singleton.mpr rfl)
    · exact fun s op' hop => h.pending s op' (mem_pendingOn_of_started hop)
  · refine ⟨horderly, hframes ▸ houter, ?_⟩
    intro s op hop
    have hop' : op ∈ pendingOn s (run.machine.closeDrain run.frame).trace := by
      rwa [← pendingOn_note (e := .reported f.stream
        (run.frame.request.answer run.frame.result)) rfl]
    rw [Machine.pendingOn_closeDrain] at hop'
    exact h.pending s op hop'

theorem last (h : run.Restrained allowed) {done : SyncResult × Machine}
    (hs : run.step = .inl done) (s : StreamId) :
    ∀ op ∈ pendingOn s done.2.trace, op.keeps allowed s = true := by
  obtain ⟨-, -, rfl⟩ := Run.step_eq_inl hs
  intro op hop
  rw [Machine.pendingOn_closeDrain] at hop
  exact h.pending s op hop

end Run.Restrained

/-- Whatever waits keeps to what is allowed. -/
def Machine.Waiting (allowed : StreamId → Act → Bool) (m : Machine) : Prop :=
  ∀ s, ∀ op ∈ m.streams.waiting s, op.keeps allowed s = true

/-- Only the queues of registered streams have to be looked at. -/
theorem Machine.waiting_of_table {allowed : StreamId → Act → Bool} {m : Machine}
    (h : ∀ entry ∈ m.streams.table, ∀ op ∈ m.streams.items entry.2,
      op.keeps allowed entry.1 = true) : m.Waiting allowed := by
  intro s op hop
  unfold Registry.waiting at hop
  split at hop
  · rename_i q hq
    exact h (s, q) (KeyedList.mem_of_get? hq) op hop
  · cases hop

/-- No drain is in progress, and whatever waits keeps to what is allowed. -/
structure Machine.Restrained (allowed : StreamId → Act → Bool) (m : Machine) : Prop where
  orderly : m.Orderly
  waiting : m.Waiting allowed

/-- A property of machines that no allowed act breaks. -/
structure Respected (allowed : StreamId → Act → Bool) (P : Machine → Prop) : Prop where
  streams : ∀ {m : Machine} r, P m → P { m with streams := r }
  emit : ∀ {m : Machine} {e : Event}, e.moves = false → P m → P (m.emit e)
  write : ∀ {m : Machine} s b byte length offset,
    allowed s (.write b byte length offset) = true → P m →
      P { m with memory := m.memory.write b byte length offset }
  free : ∀ {m : Machine} s r b k, allowed s (.free r b k) = true → P m → P (m.freeBlock s r b k)

namespace Respected

variable {allowed : StreamId → Act → Bool} {P : Machine → Prop} (c : Respected allowed P)
include c

theorem closeDrain {m : Machine} (f : Frame) (h : P m) : P (m.closeDrain f) := by
  unfold Machine.closeDrain
  split
  · exact c.streams _ h
  · have hpruned := c.streams ((m.streams.prune f.stream f.queue).release f.queue) h
    dsimp only
    split
    · exact hpruned
    · exact c.emit rfl hpruned

theorem nest {run : Run} (request : DrainRequest) (s : StreamId) (h : P run.machine) :
    P (run.nest request s).machine := by
  have ha : P (run.machine.report run.frame.stream request.announcement) := c.emit rfl h
  unfold Run.nest
  dsimp only
  split
  · exact c.emit rfl h
  · split
    · rename_i f m ho
      obtain ⟨q, -, -, rfl⟩ := Machine.openDrain_eq_some ho
      exact c.streams _ ha
    · exact c.emit rfl ha

theorem perform {run : Run} {a : Act} (ha : allowed run.frame.stream a = true)
    (h : P run.machine) : P (run.perform a).machine := by
  cases a with
  | write b byte length offset => exact c.emit rfl (c.write _ b byte length offset ha h)
  | enqueue s acts => exact c.emit rfl (c.emit rfl (c.streams _ h))
  | synchronize s => exact c.nest .synchronize s h
  | destroy s => exact c.nest .destroy s h
  | free r b k => exact c.free _ r b k ha h
  | _ => exact c.emit rfl h

theorem step {run next : Run} (hr : run.Restrained allowed) (h : P run.machine)
    (hs : run.step = .inr next) : P next.machine := by
  rcases Run.step_eq_inr hs with
    ⟨a, rest, hcons, rfl⟩ | ⟨op, streams, -, rfl⟩ | ⟨f, outer, -, -, rfl⟩
  · have hrest := hr.rest _ List.mem_cons_self
    rw [hcons, Operation.keeps_cons_iff] at hrest
    exact c.perform (Operation.allowed_of_actKeeps hrest.1) h
  · exact c.emit rfl (c.streams _ h)
  · exact c.emit rfl (c.closeDrain run.frame h)

theorem drain {m : Machine} (hm : m.Restrained allowed) (request : DrainRequest) (s : StreamId)
    (h : P m) : (m.drain request s).2.Restrained allowed ∧ P (m.drain request s).2 := by
  have horderly := hm.orderly.drain request s
  have hrun : (∀ t, ∀ op ∈ pendingOn t (m.drain request s).2.trace, op.keeps allowed t = true) ∧
      P (m.drain request s).2 := by
    have hpending : ∀ t, ∀ op ∈ pendingOn t m.trace, op.keeps allowed t = true := by
      intro t op hop
      rw [StreamMemory.Orderly.pendingOn_eq hm.orderly, backlog_nil] at hop
      exact hm.waiting t op hop
    apply Machine.drain_induction (P := fun run => run.Restrained allowed ∧ P run.machine)
      (Q := fun n => (∀ t, ∀ op ∈ pendingOn t n.trace, op.keeps allowed t = true) ∧ P n)
    · exact fun _ => ⟨hpending, h⟩
    · intro frame machine ho
      have hopened := hm.orderly.opened ho
      obtain ⟨q, -, rfl, rfl⟩ := Machine.openDrain_eq_some ho
      exact ⟨⟨hopened, List.forall_mem_singleton.mpr rfl, hpending⟩, c.streams _ h⟩
    · exact fun _ _ ⟨hr, hP⟩ hs => ⟨hr.step hs, c.step hr hP hs⟩
    · rintro run done ⟨hr, hP⟩ hs
      refine ⟨hr.last hs, ?_⟩
      obtain ⟨-, -, rfl⟩ := Run.step_eq_inl hs
      exact c.closeDrain run.frame hP
  refine ⟨⟨horderly, fun t op hop => hrun.1 t op ?_⟩, hrun.2⟩
  rwa [StreamMemory.Orderly.pendingOn_eq horderly, backlog_nil]

theorem synchronizeNoThrow {m : Machine} (hm : m.Restrained allowed) (s : StreamId) (h : P m) :
    (m.synchronizeNoThrow s).Restrained allowed ∧ P (m.synchronizeNoThrow s) := by
  have hd : (m.synchronize s).2.Restrained allowed ∧ P (m.synchronize s).2 :=
    c.drain hm .synchronize s h
  rcases m.synchronizeNoThrow_eq s with e | ⟨f, e⟩
  · rw [e]
    exact hd
  · rw [e]
    exact ⟨⟨hd.1.orderly.note rfl, hd.1.waiting⟩, c.emit rfl hd.2⟩

end Respected

namespace Machine.Restrained

variable {allowed : StreamId → Act → Bool} {m m' : Machine}

theorem congr (h : m.Restrained allowed) (hs : m'.streams = m.streams) (ht : m'.trace = m.trace) :
    m'.Restrained allowed := by
  obtain ⟨ho, hw⟩ := h
  unfold Machine.Orderly at ho
  unfold Machine.Waiting at hw
  constructor
  · unfold Machine.Orderly
    rwa [hs, ht]
  · unfold Machine.Waiting
    rwa [hs]

theorem mono {allowed' : StreamId → Act → Bool} (h : m.Restrained allowed)
    (ha : ∀ s a, allowed s a = true → allowed' s a = true) : m.Restrained allowed' :=
  ⟨h.orderly, fun s op hop => Operation.keeps_mono ha (h.waiting s op hop)⟩

theorem note (h : m.Restrained allowed) {e : Event} (he : e.works = false) :
    (m.emit e).Restrained allowed :=
  ⟨h.orderly.note he, h.waiting⟩

theorem setEmulated (h : m.Restrained allowed) (r : ResourceId) (e : Emulated) :
    (m.setEmulated r e).Restrained allowed :=
  h.congr rfl rfl

theorem giveBack (h : m.Restrained allowed) (r : ResourceId) (b : BlockId) (bytes alignment : Nat) :
    (m.giveBack r b bytes alignment).Restrained allowed := by
  have hn := h.note (e := .returned b (Heap.layout bytes alignment)) rfl
  exact hn.congr (m.streams_giveBack r b bytes alignment) (m.trace_giveBack r b bytes alignment)

theorem synchronizeNoThrow (h : m.Restrained allowed) (s : StreamId) :
    (m.synchronizeNoThrow s).Restrained allowed :=
  (Respected.synchronizeNoThrow (P := fun _ => True)
    ⟨fun _ h => h, fun _ h => h, fun _ _ _ _ _ _ h => h, fun _ _ _ _ _ h => h⟩ h s trivial).1

theorem releaseKey (h : m.Restrained allowed) (r : ResourceId) (k : BlockKey) (bs : List BlockId) :
    (m.releaseKey r k bs).Restrained allowed :=
  Machine.releaseKey_induction (fun _ b hn => hn.giveBack r b k.bytes k.alignment) bs
    (h.synchronizeNoThrow k.stream)

theorem releaseLists (h : m.Restrained allowed) (r : ResourceId)
    (lists : KeyedList BlockKey (List BlockId)) : (m.releaseLists r lists).Restrained allowed := by
  induction lists generalizing m with
  | nil => exact h
  | cons entry lists ih => exact ih (h.releaseKey r entry.1 entry.2)

theorem releaseCached (h : m.Restrained allowed) (r : ResourceId) :
    (m.releaseCached r).2.Restrained allowed := by
  unfold Machine.releaseCached
  split
  · exact h
  · rename_i e he
    exact ((h.setEmulated r e.beginPass).releaseLists r (m.arrange e.free.lists)).note rfl

theorem takeBlock (h : m.Restrained allowed) {r : ResourceId} {heap heap' : Heap}
    {bytes alignment : Nat} {b : BlockId}
    (hb : m.takeBlock r heap bytes alignment = .ok (b, heap', m')) : m'.Restrained allowed := by
  obtain ⟨-, -, rfl⟩ := Machine.takeBlock_eq_ok hb
  exact (h.note (e := .obtained ⟨b, r, bytes, alignment⟩) rfl).congr rfl rfl

theorem cacheBlock (h : m.Restrained allowed) (r : ResourceId) (e : Emulated) (b : BlockId)
    (k : BlockKey) : (m.cacheBlock r e b k).Restrained allowed := by
  have hcached := (h.setEmulated r (e.cache k b)).note (e := .cached r k b) rfl
  exact hcached.note rfl

end Machine.Restrained

/-- What no allowed act and no block given back can break is kept by a release pass. -/
theorem Respected.releaseLists {allowed : StreamId → Act → Bool} {P : Machine → Prop}
    (c : Respected allowed P) {r : ResourceId}
    (giveBack : ∀ {m : Machine} b bytes alignment, P m → P (m.giveBack r b bytes alignment))
    {m : Machine} (hm : m.Restrained allowed) (lists : KeyedList BlockKey (List BlockId))
    (h : P m) : P (m.releaseLists r lists) := by
  induction lists generalizing m with
  | nil => exact h
  | cons entry lists ih =>
    have hkey : P (m.releaseKey r entry.1 entry.2) :=
      Machine.releaseKey_induction (fun _ b hn => giveBack b _ _ hn) entry.2
        (c.synchronizeNoThrow hm entry.1.stream h).2
    exact ih (hm.releaseKey r entry.1 entry.2) hkey

end StreamMemory
