import StreamMemory.Session.Step

/-!
# Step reports

What is told of each request: the reply, the statistics of the resources, what is pending on the
streams, and what happened meanwhile. Reports of operations are told apart by stream. In the log,
neighbouring entries about failed synchronizations stand in the order of their streams, because a
release pass takes its keys in no particular order.
-/

set_option autoImplicit false

namespace StreamMemory

def Resource.statistics : Resource → List Nat
  | emulated e =>
    [e.live.current, e.live.peak, e.free.cachedBytes, e.allocations, e.reuses, e.reclaims]
  | r => [r.heap.allocated.current, r.heap.allocated.peak, r.heap.count]

/-- Puts an entry in front of a log, but behind entries about streams with smaller numbers. -/
def LogEntry.insert (e : LogEntry) : List LogEntry → List LogEntry
  | [] => [e]
  | x :: xs =>
    match e.failedStream?, x.failedStream? with
    | some s, some t => if t < s then x :: e.insert xs else e :: x :: xs
    | _, _ => e :: x :: xs

/-- Sorts each run of entries about failed synchronizations by stream. -/
def LogEntry.arrange (es : List LogEntry) : List LogEntry := es.foldr LogEntry.insert []

theorem LogEntry.insert_perm (e : LogEntry) (es : List LogEntry) : (e.insert es).Perm (e :: es) := by
  induction es with
  | nil => exact .refl _
  | cons x xs ih =>
    unfold LogEntry.insert
    split
    · split
      · exact (ih.cons x).trans (.swap e x xs)
      · exact .refl _
    · exact .refl _

theorem LogEntry.arrange_perm (es : List LogEntry) : (LogEntry.arrange es).Perm es := by
  induction es with
  | nil => exact .refl _
  | cons e es ih => exact (LogEntry.insert_perm e _).trans (ih.cons e)

structure StepReport where
  reply : Reply
  /-- By number of resource; nothing for one that was dropped. -/
  statistics : List (Option (List Nat))
  /-- By number of stream. -/
  pending : List Nat
  /-- By stream that has reports. -/
  ran : List (StreamId × List Report)
  hooks : List HookCall
  log : List LogEntry

namespace Session

/-- What the operations of each stream reported, in order. -/
def reportsByStream (streams : Nat) (events : List Event) : List (StreamId × List Report) :=
  (List.range streams).filterMap fun t =>
    match (events.filterMap Event.report?).filterMap fun (u, r) => if u = t then some r else none with
    | [] => none
    | rs => some (t, rs)

/-- Serves a request and tells what happened. -/
def step (s : Session) (q : Request) : StepReport × Session :=
  let (reply, s) := { s with machine := { s.machine with trace := [] } }.serve q
  let m := s.machine
  let events := m.trace.reverse
  ({ reply
     statistics := m.resources.map (Option.map Resource.statistics)
     pending := (List.range m.streamCount).map m.pending
     ran := reportsByStream m.streamCount events
     hooks := events.filterMap Event.hook?
     log := LogEntry.arrange (events.filterMap Event.entry?) }, s)

/-- Serves requests one after the other. -/
def steps (s : Session) : List Request → List StepReport
  | [] => []
  | q :: qs => (s.step q).1 :: (s.step q).2.steps qs

theorem length_steps (s : Session) (qs : List Request) : (s.steps qs).length = qs.length := by
  induction qs generalizing s with
  | nil => rfl
  | cons q qs ih => simp [steps, ih]

end Session

end StreamMemory
