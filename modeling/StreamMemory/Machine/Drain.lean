import StreamMemory.Machine.Basic

/-!
# Draining streams

A drain runs the operations of one queue until none is left, also those that are appended meanwhile.
An operation can open a drain of another stream; its own drain then waits in the stack of outer
frames. `Run.step` does the next thing there is to do, and `Run.finish` goes on until the drain is
over. That ends, since each step takes away from the work that is left (`work_step`).
-/

set_option autoImplicit false

namespace StreamMemory

inductive DrainRequest where
  | synchronize | destroy
  deriving DecidableEq, Repr

namespace DrainRequest

def announcement : DrainRequest → Report
  | synchronize => .synchronizing
  | destroy => .destroying

def answer (result : SyncResult) : DrainRequest → Report
  | synchronize => .synchronized result
  | destroy => .destroyed result

/-- To destroy a stream is to unregister its queue first. The default stream is never destroyed. -/
def detaches (s : StreamId) : DrainRequest → Bool
  | synchronize => false
  | destroy => s != defaultStream

end DrainRequest

structure Frame where
  request : DrainRequest
  stream : StreamId
  queue : QueueId
  /-- Operations that panicked so far. -/
  failed : Nat := 0
  /-- What the running operation has still to do. -/
  rest : Operation := []

namespace Frame

def result (f : Frame) : SyncResult :=
  if f.failed = 0 then .ok () else .error ⟨f.stream, f.failed⟩

def work (f : Frame) : Nat := Operation.weight f.rest + 1

end Frame

namespace Machine

def openDrain (m : Machine) (request : DrainRequest) (s : StreamId) : Option (Frame × Machine) :=
  (if request.detaches s then m.streams.remove s else m.streams.existing s).map
    fun (queue, streams) => ({ request, stream := s, queue }, { m with streams })

/-- Gives up the handle of a drain. A queue that is still registered and has nothing to do is
forgotten, and failures are logged. -/
def closeDrain (m : Machine) (f : Frame) : Machine :=
  if f.request.detaches f.stream then { m with streams := m.streams.release f.queue }
  else
    let m := { m with streams := (m.streams.prune f.stream f.queue).release f.queue }
    match f.result with
    | .ok _ => m
    | .error failure => m.log (.operationsFailed failure)

theorem openDrain_eq_some {m m' : Machine} {request : DrainRequest} {s : StreamId} {f : Frame}
    (h : m.openDrain request s = some (f, m')) :
    ∃ q, m.streams.find? s = some q ∧ f = { request, stream := s, queue := q } ∧
      m' = { m with streams :=
        (if request.detaches s then m.streams.unregister s else m.streams).hold q } := by
  unfold openDrain at h
  obtain ⟨⟨q, r⟩, hr, he⟩ := Option.map_eq_some_iff.mp h
  cases he
  by_cases hd : request.detaches s = true
  · rw [if_pos hd] at hr
    obtain ⟨p, hp, e⟩ := Option.map_eq_some_iff.mp hr
    cases e
    exact ⟨q, hp, rfl, by rw [if_pos hd]⟩
  · rw [if_neg hd] at hr
    obtain ⟨p, hp, e⟩ := Option.map_eq_some_iff.mp hr
    cases e
    exact ⟨q, hp, rfl, by rw [if_neg hd]⟩

theorem openDrain_eq_none {m : Machine} {request : DrainRequest} {s : StreamId}
    (h : m.openDrain request s = none) : m.streams.find? s = none := by
  unfold openDrain at h
  rw [Option.map_eq_none_iff] at h
  split at h
  · exact Option.map_eq_none_iff.mp h
  · exact Option.map_eq_none_iff.mp h

def freeBlock (m : Machine) (s : StreamId) (r : ResourceId) (b : BlockId) (k : BlockKey) :
    Machine :=
  match m.emulated? r with
  | some e =>
    ((m.emit (.released ⟨b, r, k.bytes, k.alignment⟩)).cacheBlock r e b k).report s (.freed true)
  | none => m.report s (.freed false)

end Machine

/-- A drain in progress. -/
structure Run where
  machine : Machine
  frame : Frame
  outer : List Frame := []

namespace Run

def draining (run : Run) (s : StreamId) : Bool :=
  (run.frame :: run.outer).any fun f => f.stream == s

def nest (run : Run) (request : DrainRequest) (s : StreamId) : Run :=
  let here := run.frame.stream
  if run.draining s then { run with machine := run.machine.report here (.busy s) }
  else
    let m := run.machine.report here request.announcement
    match m.openDrain request s with
    | some (frame, machine) => { machine, frame, outer := run.frame :: run.outer }
    | none => { run with machine := m.report here (request.answer (.ok ())) }

/-- Performs an act of the running operation, of which `run` holds the rest. -/
def perform (run : Run) (a : Act) : Run :=
  let m := run.machine
  let here := run.frame.stream
  match a with
  | .mark label => { run with machine := m.report here (.mark label) }
  | .panic =>
    { run with
      machine := m.report here .panicked
      frame := { run.frame with rest := [], failed := run.frame.failed + 1 } }
  | .write b byte length offset =>
    { run with
      machine := { m with memory := m.memory.write b byte length offset }.report here .wrote }
  | .read b length offset =>
    { run with machine := m.report here (.read (m.memory.read b length offset)) }
  | .enqueue s acts => { run with machine := (m.enqueue s acts).report here .enqueued }
  | .synchronize s => run.nest .synchronize s
  | .destroy s => run.nest .destroy s
  | .pending s => { run with machine := m.report here (.pending (m.pending s)) }
  | .free r b k => { run with machine := m.freeBlock here r b k }

/-- The next act, else the next operation, else the end of the innermost drain. -/
def step (run : Run) : (SyncResult × Machine) ⊕ Run :=
  match run.frame.rest with
  | a :: rest => .inr ({ run with frame := { run.frame with rest } }.perform a)
  | [] =>
    match run.machine.streams.pop run.frame.queue with
    | some (op, streams) =>
      .inr { run with
        machine := { run.machine with streams }.emit (.started run.frame.stream op)
        frame := { run.frame with rest := op } }
    | none =>
      let m := run.machine.closeDrain run.frame
      match run.outer with
      | [] => .inl (run.frame.result, m)
      | f :: outer =>
        .inr {
          machine := m.report f.stream (run.frame.request.answer run.frame.result)
          frame := f
          outer }

/-- Everything that one step can do. -/
theorem step_eq_inr {run next : Run} (h : run.step = .inr next) :
    (∃ a rest, run.frame.rest = a :: rest ∧
      next = { run with frame := { run.frame with rest } }.perform a) ∨
    (∃ op streams, run.machine.streams.pop run.frame.queue = some (op, streams) ∧
      next = { run with
        machine := { run.machine with streams }.emit (.started run.frame.stream op)
        frame := { run.frame with rest := op } }) ∨
    ∃ f outer, run.machine.streams.pop run.frame.queue = none ∧ run.outer = f :: outer ∧
      next = {
        machine := (run.machine.closeDrain run.frame).report f.stream
          (run.frame.request.answer run.frame.result)
        frame := f
        outer } := by
  unfold step at h
  split at h
  · rename_i a rest hrest
    cases h
    exact .inl ⟨a, rest, hrest, rfl⟩
  · split at h
    · rename_i op streams hp
      cases h
      exact .inr (.inl ⟨op, streams, hp, rfl⟩)
    · rename_i hp
      dsimp only at h
      split at h
      · cases h
      · rename_i f outer houter
        cases h
        exact .inr (.inr ⟨f, outer, hp, houter, rfl⟩)

theorem step_eq_inl {run : Run} {done : SyncResult × Machine} (h : run.step = .inl done) :
    run.machine.streams.pop run.frame.queue = none ∧ run.outer = [] ∧
      done = (run.frame.result, run.machine.closeDrain run.frame) := by
  unfold step at h
  split at h
  · cases h
  · split at h
    · cases h
    · rename_i hp
      dsimp only at h
      split at h
      · rename_i houter
        cases h
        exact ⟨hp, houter, rfl⟩
      · cases h

/-! ## Termination -/

def streamsWork (r : Registry Operation) : Nat :=
  total (fun q => Operation.queueWeight q.items) r.queues

def work (run : Run) : Nat :=
  streamsWork run.machine.streams + total Frame.work (run.frame :: run.outer)

theorem streamsWork_modify {r : Registry Operation} {q : QueueId}
    {f : Queue Operation → Queue Operation} {c : Nat}
    (h : ∀ x, Operation.queueWeight (f x).items ≤ Operation.queueWeight x.items + c) :
    streamsWork (r.modify q f) ≤ streamsWork r + c :=
  total_modify_le h r.queues q

theorem streamsWork_hold (r : Registry Operation) (q : QueueId) :
    streamsWork (r.hold q) ≤ streamsWork r := by
  rw [← Nat.add_zero (streamsWork r)]
  exact streamsWork_modify fun _ => Nat.le_refl _

theorem streamsWork_release (r : Registry Operation) (q : QueueId) :
    streamsWork (r.release q) ≤ streamsWork r := by
  rw [← Nat.add_zero (streamsWork r)]
  exact streamsWork_modify fun _ => Nat.le_refl _

theorem streamsWork_prune (r : Registry Operation) (s : StreamId) (q : QueueId) :
    streamsWork (r.prune s q) = streamsWork r := by
  unfold Registry.prune
  split <;> rfl

theorem streamsWork_queue (r : Registry Operation) (s : StreamId) :
    streamsWork (r.queue s).2 ≤ streamsWork r := by
  unfold Registry.queue
  split
  · exact streamsWork_hold _ _
  · simp [streamsWork, Registry.create]

theorem streamsWork_enqueue (r : Registry Operation) (s : StreamId) (op : Operation) :
    streamsWork (r.enqueue s op) ≤ streamsWork r + (Operation.weight op + 1) := by
  have h1 := streamsWork_release ((r.queue s).2.push (r.queue s).1 op) (r.queue s).1
  have h2 : streamsWork ((r.queue s).2.push (r.queue s).1 op) ≤
      streamsWork (r.queue s).2 + (Operation.weight op + 1) :=
    streamsWork_modify fun x => by simp
  have h3 := streamsWork_queue r s
  unfold Registry.enqueue
  omega

theorem streamsWork_pop {r r' : Registry Operation} {q : QueueId} {op : Operation}
    (h : r.pop q = some (op, r')) : streamsWork r' + (Operation.weight op + 1) = streamsWork r := by
  unfold Registry.pop at h
  split at h
  · cases h
  · rename_i a as ha
    cases h
    unfold Registry.items at ha
    cases hq : r.queues[q]? with
    | none => simp [hq] at ha
    | some x =>
      have hsum := total_modify (fun q => Operation.queueWeight q.items)
        (fun x => { x with items := as }) r.queues q hq
      have hx : x.items = op :: as := by simpa [hq] using ha
      simp only [hx, Operation.queueWeight_cons] at hsum
      unfold streamsWork Registry.modify
      dsimp only at hsum ⊢
      omega

theorem streamsWork_openDrain {m m' : Machine} {request : DrainRequest} {s : StreamId} {f : Frame}
    (h : m.openDrain request s = some (f, m')) :
    streamsWork m'.streams ≤ streamsWork m.streams ∧ f.rest = [] := by
  unfold Machine.openDrain at h
  rw [Option.map_eq_some_iff] at h
  obtain ⟨⟨q, streams⟩, h, e⟩ := h
  cases e
  refine ⟨?_, rfl⟩
  split at h
  · unfold Registry.remove at h
    rw [Option.map_eq_some_iff] at h
    obtain ⟨q', -, e⟩ := h
    cases e
    exact streamsWork_hold (m.streams.unregister s) q
  · unfold Registry.existing at h
    rw [Option.map_eq_some_iff] at h
    obtain ⟨q', -, e⟩ := h
    cases e
    exact streamsWork_hold m.streams q

theorem streamsWork_closeDrain (m : Machine) (f : Frame) :
    streamsWork (m.closeDrain f).streams ≤ streamsWork m.streams := by
  unfold Machine.closeDrain
  split
  · exact streamsWork_release _ _
  · have h1 := streamsWork_release (m.streams.prune f.stream f.queue) f.queue
    rw [streamsWork_prune] at h1
    split <;> exact h1

theorem streams_freeBlock (m : Machine) (s : StreamId) (r : ResourceId) (b : BlockId)
    (k : BlockKey) : (m.freeBlock s r b k).streams = m.streams := by
  unfold Machine.freeBlock
  split <;> rfl

theorem work_nest (run : Run) (request : DrainRequest) (s : StreamId) :
    (run.nest request s).work ≤ run.work + 1 := by
  unfold nest
  dsimp only
  split
  · exact Nat.le_succ _
  · split
    · rename_i f m h
      obtain ⟨hw, hr⟩ := streamsWork_openDrain h
      have hs : ∀ e, (run.machine.report run.frame.stream e).streams = run.machine.streams :=
        fun _ => rfl
      rw [hs] at hw
      simp only [work, total_cons]
      have : f.work = 1 := by simp [Frame.work, hr]
      omega
    · exact Nat.le_succ _

theorem work_perform (run : Run) (a : Act) :
    (run.perform a).work < run.work + Operation.actWeight a := by
  cases a with
  | panic =>
    simp only [perform, work, total_cons, Operation.actWeight, Frame.work,
      Operation.weight_nil, Machine.report, Machine.streams_emit]
    omega
  | enqueue s acts =>
    have := streamsWork_enqueue run.machine.streams s acts
    simp only [perform, work, total_cons, Operation.actWeight, Machine.report,
      Machine.streams_emit, Machine.enqueue]
    omega
  | synchronize s =>
    have := work_nest run .synchronize s
    simp only [perform, Operation.actWeight]
    omega
  | destroy s =>
    have := work_nest run .destroy s
    simp only [perform, Operation.actWeight]
    omega
  | free r b k =>
    simp only [perform, work, total_cons, Operation.actWeight,
      streams_freeBlock]
    omega
  | _ =>
    simp only [perform, work, total_cons, Operation.actWeight, Machine.report,
      Machine.streams_emit]
    omega

/-- Each step leaves less to do. -/
theorem work_step {run next : Run} (h : run.step = .inr next) : next.work < run.work := by
  rcases step_eq_inr h with
    ⟨a, rest, hrest, rfl⟩ | ⟨op, streams, hpop, rfl⟩ | ⟨f, outer, -, houter, rfl⟩
  · have := work_perform { run with frame := { run.frame with rest } } a
    simp only [work, total_cons, Frame.work, hrest, Operation.weight_cons] at this ⊢
    omega
  · have := streamsWork_pop hpop
    simp only [work, total_cons, Frame.work, Machine.streams_emit]
    omega
  · have hc := streamsWork_closeDrain run.machine run.frame
    have hs : ∀ (m : Machine) e, (m.report f.stream e).streams = m.streams := fun _ _ => rfl
    have : 0 < run.frame.work := Nat.succ_pos _
    simp only [work, total_cons, houter, hs]
    omega

/-- Goes on until the drain is over. -/
def finish (run : Run) : SyncResult × Machine :=
  match _h : run.step with
  | .inl done => done
  | .inr next => next.finish
termination_by run.work
decreasing_by exact work_step _h

theorem finish_of_inl {run : Run} {done : SyncResult × Machine} (h : run.step = .inl done) :
    run.finish = done := by
  rw [finish]
  split <;> simp_all

theorem finish_of_inr {run next : Run} (h : run.step = .inr next) : run.finish = next.finish := by
  rw [finish]
  split <;> simp_all

theorem finish_induction {P : Run → Prop} {Q : SyncResult × Machine → Prop}
    (step : ∀ run next : Run, P run → run.step = .inr next → P next)
    (last : ∀ (run : Run) done, P run → run.step = .inl done → Q done) {run : Run} (h : P run) :
    Q run.finish := by
  induction run using finish.induct with
  | case1 run done hs =>
    rw [finish_of_inl hs]
    exact last run done h hs
  | case2 run next hs ih =>
    rw [finish_of_inr hs]
    exact ih (step run next h hs)

end Run

namespace Machine

def drain (m : Machine) (request : DrainRequest) (s : StreamId) : SyncResult × Machine :=
  match m.openDrain request s with
  | none => (.ok (), m)
  | some (frame, machine) => Run.finish { machine, frame }

theorem drain_induction {m : Machine} {request : DrainRequest} {s : StreamId} {P : Run → Prop}
    {Q : Machine → Prop} (idle : m.openDrain request s = none → Q m)
    (opened : ∀ frame machine, m.openDrain request s = some (frame, machine) →
      P { machine, frame })
    (step : ∀ run next : Run, P run → run.step = .inr next → P next)
    (last : ∀ (run : Run) done, P run → run.step = .inl done → Q done.2) :
    Q (m.drain request s).2 := by
  unfold drain
  split
  · rename_i hnone
    exact idle hnone
  · rename_i frame machine hopen
    exact Run.finish_induction (Q := fun done => Q done.2) step last (opened frame machine hopen)

def synchronize (m : Machine) (s : StreamId) : SyncResult × Machine := m.drain .synchronize s

def destroy (m : Machine) (s : StreamId) : SyncResult × Machine := m.drain .destroy s

end Machine

end StreamMemory
