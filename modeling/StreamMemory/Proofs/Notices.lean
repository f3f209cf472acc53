import StreamMemory.Proofs.Registration

/-!
# Notices of failed operations

An operation that panics does not stop the drain of its stream, so nobody but the drain knows. What
the drain counted it tells once: it answers whoever asked for it, or, where an answer is not wanted,
a line in the log takes its place. A drain that does not destroy its stream also makes a note in the
log. The trace with its notices is compared with the operations that panicked (`Tallied`); while
drains are in progress, their frames still hold what was counted and not told.
-/

set_option autoImplicit false

namespace StreamMemory

/-! ## Notices -/

/-- What tells of operations that failed. -/
inductive Notice where
  /-- A drain notes in the log how many operations failed. -/
  | noted (failure : StreamFailure)
  /-- The log says that nobody was told why a stream could not be synchronized. -/
  | passedOver (stream : StreamId) (cause : Failure)
  /-- An operation is told what became of the drain that it asked for. -/
  | answered (request : DrainRequest) (failure : StreamFailure)

/-- How many operations of a stream failed. -/
def StreamFailure.on (s : StreamId) (f : StreamFailure) : Nat := if f.stream = s then f.failed else 0

namespace Notice

def notedOn (s : StreamId) : Notice → Nat
  | noted f => f.on s
  | _ => 0

/-- The default stream is never destroyed, only drained. -/
def destroyedOn (s : StreamId) : Notice → Nat
  | answered .destroy f => if f.stream = defaultStream then 0 else f.on s
  | _ => 0

/-- The failed operations of a stream that somebody was told of, or nobody wanted to be told of. -/
def toldOn (s : StreamId) : Notice → Nat
  | passedOver _ (.stream f) => f.on s
  | answered _ f => f.on s
  | _ => 0

end Notice

namespace Event

def notice? : Event → Option Notice
  | logged (.operationsFailed f) => some (.noted f)
  | logged (.synchronizeFailed (.view s) cause) => some (.passedOver s cause)
  | reported _ (.synchronized (.error f)) => some (.answered .synchronize f)
  | reported _ (.destroyed (.error f)) => some (.answered .destroy f)
  | _ => none

/-- The stream of an operation that panicked. -/
def panicked? : Event → Option StreamId
  | reported s .panicked => some s
  | _ => none

end Event

/-- The notices of a trace, the first one first. -/
def notices (trace : List Event) : List Notice := (trace.filterMap Event.notice?).reverse

/-- How many operations of a stream panicked. -/
def panics (s : StreamId) (trace : List Event) : Nat := (trace.filterMap Event.panicked?).count s

theorem notices_cons (e : Event) (trace : List Event) :
    notices (e :: trace) = notices trace ++ e.notice?.toList := by
  unfold notices
  rw [List.filterMap_cons]
  cases e.notice? <;> simp

theorem panics_cons (s : StreamId) (e : Event) (trace : List Event) :
    panics s (e :: trace) = panics s trace + if e.panicked? = some s then 1 else 0 := by
  unfold panics
  rw [List.filterMap_cons]
  cases he : e.panicked? with
  | none => simp
  | some t => by_cases ht : t = s <;> simp [ht]

/-- Each failed drain is told of once. One that does not destroy its stream is noted just before. -/
inductive Settled : List Notice → Prop
  | nil : Settled []
  | passedOver {ns : List Notice} (h : Settled ns) {f : StreamFailure} (hf : 0 < f.failed) :
    Settled (ns ++ [.noted f, .passedOver f.stream (.stream f)])
  | answered {ns : List Notice} (h : Settled ns) {f : StreamFailure} (hf : 0 < f.failed)
    {request : DrainRequest} (hr : request.detaches f.stream = false) :
    Settled (ns ++ [.noted f, .answered request f])
  | destroyed {ns : List Notice} (h : Settled ns) {f : StreamFailure} (hf : 0 < f.failed)
    (hs : f.stream ≠ defaultStream) : Settled (ns ++ [.answered .destroy f])

theorem DrainRequest.eq_of_detaches {request : DrainRequest} {s : StreamId}
    (h : request.detaches s = true) : request = .destroy ∧ s ≠ defaultStream := by
  cases request with
  | synchronize => cases h
  | destroy => exact ⟨rfl, by simpa [detaches] using h⟩

theorem DrainRequest.of_not_detaches {request : DrainRequest} {s : StreamId}
    (h : request.detaches s = false) : request = .synchronize ∨ s = defaultStream := by
  cases request with
  | synchronize => exact .inl rfl
  | destroy => exact .inr (by simpa [detaches] using h)

theorem Settled.total_told {ns : List Notice} (h : Settled ns) (s : StreamId) :
    total (Notice.notedOn s) ns + total (Notice.destroyedOn s) ns = total (Notice.toldOn s) ns := by
  induction h with
  | nil => rfl
  | passedOver _ _ ih =>
    simp only [total_append, total_cons, total_nil, Notice.notedOn, Notice.destroyedOn,
      Notice.toldOn]
    omega
  | @answered _ _ f _ request hr ih =>
    have hd : Notice.destroyedOn s (.answered request f) = 0 := by
      rcases DrainRequest.of_not_detaches hr with rfl | hs
      · rfl
      · cases request with
        | synchronize => rfl
        | destroy => exact if_pos hs
    simp only [total_append, total_cons, total_nil, Notice.notedOn, hd, Notice.toldOn]
    simp only [Notice.destroyedOn]
    omega
  | destroyed _ _ hs ih =>
    simp only [total_append, total_cons, total_nil, Notice.notedOn, Notice.destroyedOn,
      Notice.toldOn, if_neg hs]
    omega

/-! ## The invariant -/

/-- The operations of a stream that panicked in a drain. -/
def Frame.failedOn (s : StreamId) (f : Frame) : Nat := if f.stream = s then f.failed else 0

/-- The notices of a trace are those of a past and others that are settled, but for the last ones.
All operations that panicked are noted, or were told to an operation that destroyed their stream, or
are known to callers that did so (`due`), or to a drain in progress. -/
structure Tallied (past : List Notice) (due : StreamId → Nat) (last : List Notice)
    (trace : List Event) (frames : List Frame) : Prop where
  settled : ∃ ns, Settled ns ∧ notices trace = past ++ ns ++ last
  balance : ∀ s, panics s trace = total (Notice.notedOn s) (notices trace) +
    total (Notice.destroyedOn s) (notices trace) + due s + total (Frame.failedOn s) frames

namespace Tallied

variable {past last : List Notice} {due : StreamId → Nat} {trace : List Event}
variable {f : Frame} {fs : List Frame} {e : Event}

theorem note (h : Tallied past due last trace fs) (hn : e.notice? = none)
    (hp : e.panicked? = none) : Tallied past due last (e :: trace) fs := by
  have hnotices : notices (e :: trace) = notices trace := by
    rw [notices_cons, hn, Option.toList_none, List.append_nil]
  have hpanics : ∀ s, panics s (e :: trace) = panics s trace := by
    intro s
    rw [panics_cons, hp]
    rfl
  obtain ⟨hsettled, hbalance⟩ := h
  constructor
  · rw [hnotices]
    exact hsettled
  · intro s
    rw [hnotices, hpanics]
    exact hbalance s

theorem frame (h : Tallied past due last trace (f :: fs)) (rest : Operation) :
    Tallied past due last trace ({ f with rest } :: fs) :=
  ⟨h.settled, h.balance⟩

/-- A panic is counted by the drain of its stream. -/
theorem panic (h : Tallied past due last trace (f :: fs)) :
    Tallied past due last (.reported f.stream .panicked :: trace)
      ({ f with rest := [], failed := f.failed + 1 } :: fs) := by
  have hnotices : notices (.reported f.stream .panicked :: trace) = notices trace := by
    rw [notices_cons]
    exact List.append_nil _
  constructor
  · rw [hnotices]
    exact h.settled
  · intro s
    have hb := h.balance s
    rw [total_cons] at hb
    rw [hnotices, panics_cons, total_cons]
    by_cases hs : f.stream = s
    · simp only [Frame.failedOn, Event.panicked?, hs, if_true] at hb ⊢
      omega
    · simp only [Frame.failedOn, Event.panicked?, hs, if_false, Option.some.injEq] at hb ⊢
      omega

theorem opened (h : Tallied past due last trace fs) (hf : f.failed = 0) :
    Tallied past due last trace (f :: fs) := by
  refine ⟨h.settled, fun s => ?_⟩
  have hzero : f.failedOn s = 0 := by
    unfold Frame.failedOn
    rw [hf]
    exact ite_self 0
  rw [total_cons, hzero, Nat.zero_add]
  exact h.balance s

theorem closed (h : Tallied past due last trace (f :: fs)) (hf : f.failed = 0) :
    Tallied past due last trace fs := by
  refine ⟨h.settled, fun s => ?_⟩
  have hb := h.balance s
  have hzero : f.failedOn s = 0 := by
    unfold Frame.failedOn
    rw [hf]
    exact ite_self 0
  rwa [total_cons, hzero, Nat.zero_add] at hb

/-- What a drain counted goes over to its note. -/
theorem noted (h : Tallied past due [] trace (f :: fs)) :
    Tallied past due [.noted ⟨f.stream, f.failed⟩]
      (.logged (.operationsFailed ⟨f.stream, f.failed⟩) :: trace) fs := by
  obtain ⟨ns, hns, hnotices⟩ := h.settled
  have hnew : notices (.logged (.operationsFailed ⟨f.stream, f.failed⟩) :: trace) =
      notices trace ++ [.noted ⟨f.stream, f.failed⟩] := notices_cons _ _
  constructor
  · refine ⟨ns, hns, ?_⟩
    rw [hnew, hnotices, List.append_nil]
  · intro s
    have hb := h.balance s
    rw [total_cons] at hb
    have hp : panics s (.logged (.operationsFailed ⟨f.stream, f.failed⟩) :: trace) =
        panics s trace := panics_cons s _ _
    have hf : Notice.notedOn s (.noted ⟨f.stream, f.failed⟩) = f.failedOn s := rfl
    have hd : Notice.destroyedOn s (.noted ⟨f.stream, f.failed⟩) = 0 := rfl
    rw [hp, hnew, total_append, total_append, total_cons, total_cons, total_nil, total_nil, hf, hd]
    omega

/-- After a note somebody is told. -/
theorem told {g : StreamFailure} {n : Notice} (h : Tallied past due [.noted g] trace fs)
    (hn : e.notice? = some n) (hp : e.panicked? = none)
    (hs : ∀ ns, Settled ns → Settled (ns ++ [.noted g, n])) (hd : ∀ s, n.notedOn s = 0)
    (hd' : ∀ s, n.destroyedOn s = 0) : Tallied past due [] (e :: trace) fs := by
  obtain ⟨ns, hns, hnotices⟩ := h.settled
  have hnew : notices (e :: trace) = notices trace ++ [n] := by
    rw [notices_cons, hn]
    rfl
  constructor
  · refine ⟨_, hs ns hns, ?_⟩
    rw [hnew, hnotices]
    simp
  · intro s
    have hb := h.balance s
    have hpanics : panics s (e :: trace) = panics s trace := by
      rw [panics_cons, hp]
      rfl
    rw [hpanics, hnew, total_append, total_append, total_cons, total_cons, total_nil, total_nil,
      hd, hd']
    exact hb

/-- What a drain that destroys a stream counted is told to an operation at once. -/
theorem destroyed (h : Tallied past due [] trace (f :: fs)) (hf : 0 < f.failed)
    (hs : f.stream ≠ defaultStream) (t : StreamId) :
    Tallied past due []
      (.reported t (.destroyed (.error ⟨f.stream, f.failed⟩)) :: trace) fs := by
  obtain ⟨ns, hns, hnotices⟩ := h.settled
  have hnew : notices (.reported t (.destroyed (.error ⟨f.stream, f.failed⟩)) :: trace) =
      notices trace ++ [.answered .destroy ⟨f.stream, f.failed⟩] := notices_cons _ _
  constructor
  · refine ⟨_, hns.destroyed (f := ⟨f.stream, f.failed⟩) hf hs, ?_⟩
    rw [hnew, hnotices]
    simp
  · intro s
    have hb := h.balance s
    rw [total_cons] at hb
    have hp : panics s (.reported t (.destroyed (.error ⟨f.stream, f.failed⟩)) :: trace) =
        panics s trace := panics_cons s _ _
    have hn : Notice.notedOn s (.answered .destroy ⟨f.stream, f.failed⟩) = 0 := rfl
    have hd : Notice.destroyedOn s (.answered .destroy ⟨f.stream, f.failed⟩) = f.failedOn s :=
      if_neg hs
    rw [hp, hnew, total_append, total_append, total_cons, total_cons, total_nil, total_nil, hn, hd]
    omega

/-- What a drain counted is known to the caller who destroys a stream. -/
theorem owed (h : Tallied past due [] trace (f :: fs)) :
    Tallied past (fun s => due s + f.failedOn s) [] trace fs := by
  refine ⟨h.settled, fun s => ?_⟩
  have hb := h.balance s
  rw [total_cons] at hb
  omega

end Tallied

/-! ## Drains -/

namespace Frame

variable {f : Frame}

theorem result_of_eq_zero (h : f.failed = 0) : f.result = .ok () := if_pos h

theorem result_of_pos (h : 0 < f.failed) : f.result = .error ⟨f.stream, f.failed⟩ :=
  if_neg (Nat.ne_of_gt h)

end Frame

theorem Machine.trace_closeDrain_of_eq_zero (m : Machine) {f : Frame} (h : f.failed = 0) :
    (m.closeDrain f).trace = m.trace := by
  unfold Machine.closeDrain
  rw [Frame.result_of_eq_zero h]
  split <;> rfl

theorem Machine.trace_closeDrain_of_detached (m : Machine) {f : Frame} (h : f.detached = true) :
    (m.closeDrain f).trace = m.trace := by
  unfold Machine.closeDrain
  rw [if_pos (show f.request.detaches f.stream = true from h)]

theorem Machine.trace_closeDrain_of_pos (m : Machine) {f : Frame} (h : 0 < f.failed)
    (hd : f.detached = false) :
    (m.closeDrain f).trace =
      .logged (.operationsFailed ⟨f.stream, f.failed⟩) :: m.trace := by
  have hd' : ¬ f.request.detaches f.stream = true := by
    rw [← Frame.detached, hd]
    exact Bool.false_ne_true
  unfold Machine.closeDrain
  rw [if_neg hd', Frame.result_of_pos h]
  rfl

namespace Tallied

variable {past : List Notice} {due : StreamId → Nat} {f : Frame} {fs : List Frame} {m m' : Machine}

/-- When a nested drain is over, an operation is told. -/
theorem closeNested (h : Tallied past due [] m.trace (f :: fs)) (t : StreamId) :
    Tallied past due [] ((m.closeDrain f).report t (f.request.answer f.result)).trace fs := by
  change Tallied past due [] (.reported t (f.request.answer f.result) :: (m.closeDrain f).trace) fs
  rcases Nat.eq_zero_or_pos f.failed with hf | hf
  · rw [m.trace_closeDrain_of_eq_zero hf, Frame.result_of_eq_zero hf]
    apply (h.closed hf).note
    · cases f.request <;> rfl
    · cases f.request <;> rfl
  · rw [Frame.result_of_pos hf]
    cases hd : f.detached with
    | true =>
      obtain ⟨hrequest, hs⟩ := DrainRequest.eq_of_detaches hd
      rw [m.trace_closeDrain_of_detached hd, hrequest]
      exact h.destroyed hf hs t
    | false =>
      rw [m.trace_closeDrain_of_pos hf hd]
      apply h.noted.told (n := .answered f.request ⟨f.stream, f.failed⟩)
      · cases f.request <;> rfl
      · cases f.request <;> rfl
      · exact fun ns hns => hns.answered (f := ⟨f.stream, f.failed⟩) hf hd
      · exact fun _ => rfl
      · intro s
        rcases DrainRequest.of_not_detaches hd with hr | hs
        · rw [hr]
          rfl
        · cases f.request with
          | synchronize => rfl
          | destroy => exact if_pos hs

end Tallied

namespace Run

/-- The failures of a run are told, or held by its frames. -/
def Tallied (past : List Notice) (due : StreamId → Nat) (run : Run) : Prop :=
  StreamMemory.Tallied past due [] run.machine.trace (run.frame :: run.outer)

variable {past : List Notice} {due : StreamId → Nat} {run next : Run}

theorem Tallied.nest (h : run.Tallied past due) (request : DrainRequest) (s : StreamId) :
    (run.nest request s).Tallied past due := by
  have hannounced : StreamMemory.Tallied past due []
      (run.machine.report run.frame.stream request.announcement).trace (run.frame :: run.outer) := by
    apply h.note
    · cases request <;> rfl
    · cases request <;> rfl
  unfold Run.nest
  dsimp only
  split
  · exact h.note rfl rfl
  · split
    · rename_i f m ho
      obtain ⟨q, -, rfl, rfl⟩ := Machine.openDrain_eq_some ho
      exact hannounced.opened rfl
    · apply hannounced.note
      · cases request <;> rfl
      · cases request <;> rfl

theorem Tallied.perform (h : run.Tallied past due) (a : Act) : (run.perform a).Tallied past due := by
  cases a with
  | panic => exact h.panic
  | enqueue s acts => exact (h.note rfl rfl).note rfl rfl
  | synchronize s => exact h.nest .synchronize s
  | destroy s => exact h.nest .destroy s
  | free r b k =>
    unfold Run.perform Run.Tallied
    dsimp only
    rcases run.machine.freeBlock_eq run.frame.stream r b k with hf | ⟨e, -, hf⟩
    · rw [hf]
      exact h.note rfl rfl
    · rw [hf]
      exact (((h.note rfl rfl).note rfl rfl).note rfl rfl).note rfl rfl
  | _ => exact h.note rfl rfl

theorem Tallied.step (h : run.Tallied past due) (hs : run.step = .inr next) :
    next.Tallied past due := by
  rcases Run.step_eq_inr hs with
    ⟨a, rest, -, rfl⟩ | ⟨op, streams, -, rfl⟩ | ⟨f, outer, -, houter, rfl⟩
  · have hr : Run.Tallied past due { run with frame := { run.frame with rest } } := h.frame rest
    exact hr.perform a
  · exact (h.frame op).note rfl rfl
  · unfold Run.Tallied at h ⊢
    rw [houter] at h
    exact h.closeNested f.stream

end Run

namespace Machine

/-- The failures of a machine are told, but for what the caller of `destroy` knows (`due`) and for
what the last notices say. -/
def Tallied (past : List Notice) (due : StreamId → Nat) (last : List Notice) (m : Machine) : Prop :=
  StreamMemory.Tallied past due last m.trace []

/-- What a drain leaves to be told by whoever asked for it. -/
inductive Drained (past : List Notice) (due : StreamId → Nat) (request : DrainRequest)
    (s : StreamId) : SyncResult × Machine → Prop
  | ok {m : Machine} (h : m.Tallied past due []) : Drained past due request s (.ok (), m)
  | noted {m : Machine} {n : Nat} (hn : 0 < n) (hd : request.detaches s = false)
    (h : m.Tallied past due [.noted ⟨s, n⟩]) : Drained past due request s (.error ⟨s, n⟩, m)
  | owed {m : Machine} {n : Nat} (hn : 0 < n) (hd : request.detaches s = true)
    (h : m.Tallied past (fun t => due t + StreamFailure.on t ⟨s, n⟩) []) :
    Drained past due request s (.error ⟨s, n⟩, m)

variable {past last : List Notice} {due : StreamId → Nat} {m m' : Machine}

theorem Tallied.drain (h : m.Tallied past due []) (request : DrainRequest) (s : StreamId) :
    Drained past due request s (m.drain request s) := by
  unfold Machine.drain
  split
  · exact .ok h
  · rename_i frame machine ho
    apply Run.finish_induction
      (P := fun run => run.Tallied past due ∧ run.Serves request s)
      (Q := Drained past due request s)
    · exact fun _ _ hr hs => ⟨hr.1.step hs, hr.2.step hs⟩
    · rintro run done ⟨hr, hserves⟩ hs
      obtain ⟨-, houter, rfl⟩ := Run.step_eq_inl hs
      unfold Run.Tallied at hr
      unfold Run.Serves Run.root at hserves
      -- the last frame is that of the drain that was asked for
      rw [houter] at hr hserves
      obtain ⟨rfl, rfl⟩ := hserves
      dsimp only [List.getLastD_nil]
      rcases Nat.eq_zero_or_pos run.frame.failed with hf | hf
      · rw [Frame.result_of_eq_zero hf]
        apply Drained.ok
        unfold Tallied
        rw [Machine.trace_closeDrain_of_eq_zero _ hf]
        exact hr.closed hf
      · rw [Frame.result_of_pos hf]
        cases hd : run.frame.detached with
        | true =>
          apply Drained.owed hf hd
          unfold Tallied
          rw [Machine.trace_closeDrain_of_detached _ hd]
          exact hr.owed
        | false =>
          apply Drained.noted hf hd
          unfold Tallied
          rw [Machine.trace_closeDrain_of_pos _ hf hd]
          exact hr.noted
    · obtain ⟨q, -, rfl, rfl⟩ := openDrain_eq_some ho
      exact ⟨StreamMemory.Tallied.opened h rfl, rfl, rfl⟩

end Machine

end StreamMemory
