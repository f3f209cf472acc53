import StreamMemory.Proofs.Custody
import StreamMemory.Registry.Lemmas

/-!
# The order of each stream

Every operation enqueued on a stream is started once, in the order of the enqueuing: what was
started so far, followed by what waits, is what was ever enqueued. The invariant covers drains in
progress. A drain that destroys a stream works on a queue that is not registered any more; its
operations come before those that wait in the registry for the same stream.
-/

set_option autoImplicit false

namespace StreamMemory

/-! ## Traces -/

@[simp] theorem enqueuedOn_cons (s : StreamId) (e : Event) (trace : List Event) :
    enqueuedOn s (e :: trace) = enqueuedOn s trace ++ (e.enqueuedOn? s).toList := by
  unfold enqueuedOn
  rw [List.filterMap_cons]
  cases h : e.enqueuedOn? s <;> simp

@[simp] theorem startedOn_cons (s : StreamId) (e : Event) (trace : List Event) :
    startedOn s (e :: trace) = startedOn s trace ++ (e.startedOn? s).toList := by
  unfold startedOn
  rw [List.filterMap_cons]
  cases h : e.startedOn? s <;> simp

theorem enqueuedOn?_of_not_works {e : Event} (h : e.works = false) (s : StreamId) :
    e.enqueuedOn? s = none := by
  cases e <;> first | rfl | cases h

theorem startedOn?_of_not_works {e : Event} (h : e.works = false) (s : StreamId) :
    e.startedOn? s = none := by
  cases e <;> first | rfl | cases h

theorem enqueuedOn_mono {past now : List Event} (h : past <:+ now) (s : StreamId) :
    enqueuedOn s past <+: enqueuedOn s now := by
  obtain ⟨es, rfl⟩ := h
  induction es with
  | nil => exact List.prefix_refl _
  | cons e es ih =>
    rw [List.cons_append, enqueuedOn_cons]
    exact ih.trans (List.prefix_append _ _)

theorem startedOn_mono {past now : List Event} (h : past <:+ now) (s : StreamId) :
    startedOn s past <+: startedOn s now := by
  obtain ⟨es, rfl⟩ := h
  induction es with
  | nil => exact List.prefix_refl _
  | cons e es ih =>
    rw [List.cons_append, startedOn_cons]
    exact ih.trans (List.prefix_append _ _)

/-- What an act enqueues on a stream. -/
def Act.enqueues (s : StreamId) : Act → List Operation
  | .enqueue t acts => if t = s then [acts] else []
  | _ => []

theorem enqueuedOn_report (m : Machine) (t : StreamId) (x : Report) (s : StreamId) :
    enqueuedOn s (m.report t x).trace = enqueuedOn s m.trace :=
  (enqueuedOn_cons s _ m.trace).trans (List.append_nil _)

theorem enqueuedOn_nest (s : StreamId) (run : Run) (request : DrainRequest) (t : StreamId) :
    enqueuedOn s (run.nest request t).machine.trace = enqueuedOn s run.machine.trace := by
  unfold Run.nest
  dsimp only
  split
  · exact enqueuedOn_report _ _ _ s
  · split
    · rename_i h
      obtain ⟨q, -, -, rfl⟩ := Machine.openDrain_eq_some h
      exact enqueuedOn_report _ _ _ s
    · exact (enqueuedOn_report _ _ _ s).trans (enqueuedOn_report _ _ _ s)

theorem enqueuedOn_perform (s : StreamId) (run : Run) (a : Act) :
    enqueuedOn s (run.perform a).machine.trace =
      enqueuedOn s run.machine.trace ++ a.enqueues s := by
  cases a with
  | enqueue t acts =>
    refine (enqueuedOn_report _ _ _ s).trans ((enqueuedOn_cons s _ _).trans ?_)
    by_cases ht : t = s <;> simp [Event.enqueuedOn?, Act.enqueues, ht]
  | synchronize t => exact (enqueuedOn_nest s run .synchronize t).trans (List.append_nil _).symm
  | destroy t => exact (enqueuedOn_nest s run .destroy t).trans (List.append_nil _).symm
  | free r b k =>
    refine Eq.trans ?_ (List.append_nil _).symm
    change enqueuedOn s (run.machine.freeBlock run.frame.stream r b k).trace = _
    rcases run.machine.freeBlock_eq run.frame.stream r b k with h | ⟨e, -, h⟩
    · rw [h]
      exact enqueuedOn_report _ _ _ s
    · rw [h, enqueuedOn_report]
      simp [Machine.cacheBlock, Machine.log, Machine.emit, Machine.setEmulated,
        Machine.setResource, Event.enqueuedOn?]
  | _ => exact (enqueuedOn_report _ _ _ s).trans (List.append_nil _).symm

/-- What was enqueued on a stream by a time in the past is started before what was enqueued there
later. -/
def InOrder (s : StreamId) (past now : List Event) : Prop :=
  startedOn s now <+: enqueuedOn s past ∨ enqueuedOn s past <+: startedOn s now

/-! ## Frames -/

namespace Frame

def detached (f : Frame) : Bool := f.request.detaches f.stream

/-- Where a drain finds its queue. -/
def Anchored (r : Registry Operation) (f : Frame) : Prop :=
  f.queue < r.queues.length ∧
    if f.detached then ∀ t, r.find? t ≠ some f.queue else r.find? f.stream = some f.queue

theorem Anchored.congr {r r' : Registry Operation} {f : Frame}
    (hlen : r.queues.length ≤ r'.queues.length) (hfind : ∀ t, r'.find? t = r.find? t)
    (h : f.Anchored r) : f.Anchored r' := by
  refine ⟨Nat.lt_of_lt_of_le h.1 hlen, ?_⟩
  simpa only [hfind] using h.2

theorem Anchored.enqueue {r : Registry Operation} {f : Frame} (h : f.Anchored r) (s : StreamId)
    (op : Operation) : f.Anchored (r.enqueue s op) := by
  refine ⟨Nat.lt_of_lt_of_le h.1 (r.length_queues_le_enqueue s op), ?_⟩
  have hf := h.2
  by_cases hd : f.detached = true
  · rw [if_pos hd] at hf ⊢
    intro t
    rw [Registry.find?_enqueue]
    split
    · intro he
      have hne : (r.queue s).1 ≠ f.queue := by
        unfold Registry.queue
        split
        · rename_i p hp
          rintro rfl
          exact hf s hp
        · exact (Nat.ne_of_lt h.1).symm
      exact hne (Option.some.inj he)
    · exact hf t
  · rw [if_neg hd] at hf ⊢
    rw [Registry.find?_enqueue]
    split
    · rename_i hs
      subst hs
      rw [← hf]
      unfold Registry.queue
      rw [hf]
    · exact hf

theorem Anchored.unregister {r : Registry Operation} {f : Frame} (h : f.Anchored r) {s : StreamId}
    (hs : f.stream ≠ s) : f.Anchored (r.unregister s) := by
  refine ⟨h.1, ?_⟩
  have hf := h.2
  by_cases hd : f.detached = true
  · rw [if_pos hd] at hf ⊢
    intro t
    rw [Registry.find?_unregister]
    split
    · exact fun e => by cases e
    · exact hf t
  · rw [if_neg hd] at hf ⊢
    rw [Registry.find?_unregister, if_neg (fun e => hs e.symm)]
    exact hf

theorem Anchored.queue_ne {r : Registry Operation} {f : Frame} (h : f.Anchored r)
    (hr : r.WellFormed) {s : StreamId} {q : QueueId} (hq : r.find? s = some q)
    (hs : f.stream ≠ s) : f.queue ≠ q := by
  rintro rfl
  have hf := h.2
  by_cases hd : f.detached = true
  · rw [if_pos hd] at hf
    exact hf s hq
  · rw [if_neg hd] at hf
    exact hs (hr.find?_inj hf hq)

end Frame

/-- What is left to do on a stream while drains are in progress. -/
def backlog (r : Registry Operation) (frames : List Frame) (s : StreamId) : List Operation :=
  (frames.filter fun f => f.detached && f.stream == s).flatMap (fun f => r.items f.queue)
    ++ r.waiting s

@[simp] theorem backlog_nil (r : Registry Operation) (s : StreamId) :
    backlog r [] s = r.waiting s := rfl

theorem backlog_cons (r : Registry Operation) (f : Frame) (fs : List Frame) (s : StreamId) :
    backlog r (f :: fs) s =
      (if f.detached = true ∧ f.stream = s then r.items f.queue else []) ++ backlog r fs s := by
  unfold backlog
  rw [List.filter_cons]
  by_cases h : f.detached = true ∧ f.stream = s
  · simp [h]
  · have hb : (f.detached && f.stream == s) = false := by
      simpa using h
    simp [h, hb]

theorem backlog_of_not_draining {r : Registry Operation} {fs : List Frame} {s : StreamId}
    (h : ∀ f ∈ fs, f.stream ≠ s) : backlog r fs s = r.waiting s := by
  induction fs with
  | nil => rfl
  | cons f fs ih =>
    rw [backlog_cons, if_neg (fun hf => h f List.mem_cons_self hf.2), List.nil_append]
    exact ih fun g hg => h g (List.mem_cons_of_mem f hg)

/-- A change of the registry that the queues of detached drains do not notice. -/
theorem backlog_congr {r r' : Registry Operation} {fs : List Frame} {s : StreamId}
    {ops : List Operation} (hw : r'.waiting s = r.waiting s ++ ops)
    (hi : ∀ f ∈ fs, f.detached = true → r'.items f.queue = r.items f.queue) :
    backlog r' fs s = backlog r fs s ++ ops := by
  induction fs with
  | nil => exact hw
  | cons f fs ih =>
    rw [backlog_cons, backlog_cons, ih fun g hg => hi g (List.mem_cons_of_mem f hg),
      List.append_assoc]
    split
    · rename_i h
      rw [hi f List.mem_cons_self h.1]
    · rfl

/-! ## The invariant -/

/-- Streams, a trace and the drains in progress, the innermost first, fit together. -/
structure Orderly (r : Registry Operation) (trace : List Event) (frames : List Frame) : Prop where
  registry : r.WellFormed
  anchored : ∀ f ∈ frames, f.Anchored r
  streams : (frames.map Frame.stream).Nodup
  queues : (frames.map Frame.queue).Nodup
  history : ∀ s, startedOn s trace ++ backlog r frames s = enqueuedOn s trace

namespace Orderly

variable {r r' : Registry Operation} {trace : List Event} {f : Frame} {fs : List Frame}

theorem start : Orderly {} [] [] :=
  ⟨Registry.wellFormed_empty, by simp, by simp, by simp, fun _ => rfl⟩

theorem note (h : Orderly r trace fs) {e : Event} (he : e.works = false) :
    Orderly r (e :: trace) fs := by
  refine ⟨h.registry, h.anchored, h.streams, h.queues, ?_⟩
  intro s
  rw [startedOn_cons, enqueuedOn_cons, startedOn?_of_not_works he, enqueuedOn?_of_not_works he]
  simpa using h.history s

/-- Sharing of queues does not matter to the order of their operations. -/
theorem congr (h : Orderly r trace fs) (hr : r'.WellFormed)
    (hlen : r.queues.length ≤ r'.queues.length) (hfind : ∀ t, r'.find? t = r.find? t)
    (hitems : ∀ q, r'.items q = r.items q) : Orderly r' trace fs := by
  refine ⟨hr, fun f hf => (h.anchored f hf).congr hlen hfind, h.streams, h.queues, ?_⟩
  intro s
  have hw : r'.waiting s = r.waiting s ++ [] := by
    simp only [Registry.waiting, hfind, hitems, List.append_nil]
  rw [backlog_congr hw fun f _ _ => hitems f.queue, List.append_nil]
  exact h.history s

theorem hold (h : Orderly r trace fs) (q : QueueId) : Orderly (r.hold q) trace fs :=
  h.congr (h.registry.hold q) (by simp [Registry.hold]) (fun _ => rfl) (fun p => r.items_hold q p)

theorem release (h : Orderly r trace fs) (q : QueueId) : Orderly (r.release q) trace fs :=
  h.congr (h.registry.release q) (by simp [Registry.release]) (fun _ => rfl)
    (fun p => r.items_release q p)

theorem frame (h : Orderly r trace (f :: fs)) (rest : Operation) (failed : Nat) :
    Orderly r trace ({ f with rest, failed } :: fs) := by
  refine ⟨h.registry, ?_, h.streams, h.queues, fun s => ?_⟩
  · rw [List.forall_mem_cons]
    have ha := h.anchored
    rw [List.forall_mem_cons] at ha
    exact ha
  · have hh := h.history s
    rw [backlog_cons] at hh ⊢
    exact hh

theorem enqueue (h : Orderly r trace fs) (s : StreamId) (op : Operation) :
    Orderly (r.enqueue s op) (.enqueued s op :: trace) fs := by
  refine ⟨h.registry.enqueue s op, fun f hf => (h.anchored f hf).enqueue s op, h.streams,
    h.queues, ?_⟩
  intro t
  rw [startedOn_cons, enqueuedOn_cons, ← h.history t]
  have hi : ∀ f ∈ fs, f.detached = true → (r.enqueue s op).items f.queue = r.items f.queue := by
    intro f hf hd
    have ha := (h.anchored f hf).2
    rw [if_pos hd] at ha
    exact r.items_enqueue_of_unregistered (h.anchored f hf).1 ha op
  have hw : (r.enqueue s op).waiting t = r.waiting t ++ (if s = t then [op] else []) := by
    rw [h.registry.waiting_enqueue]
    by_cases ht : t = s
    · subst ht
      simp
    · have ht' : ¬ s = t := fun e => ht e.symm
      simp [ht, ht']
  rw [backlog_congr hw hi]
  by_cases ht : s = t <;> simp [Event.startedOn?, Event.enqueuedOn?, ht]

/-- At most one drain is busy with a stream, and with a queue. -/
theorem outer_ne (h : Orderly r trace (f :: fs)) {g : Frame} (hg : g ∈ fs) :
    g.stream ≠ f.stream ∧ g.queue ≠ f.queue := by
  constructor
  · intro e
    exact (List.nodup_cons.mp h.streams).1 (e ▸ List.mem_map_of_mem hg)
  · intro e
    exact (List.nodup_cons.mp h.queues).1 (e ▸ List.mem_map_of_mem hg)

/-- The operation that a drain takes is the first one left on its stream. -/
theorem backlog_pop (h : Orderly r trace (f :: fs)) {op : Operation} {r' : Registry Operation}
    (hp : r.pop f.queue = some (op, r')) (s : StreamId) :
    backlog r (f :: fs) s = (if f.stream = s then [op] else []) ++ backlog r' (f :: fs) s := by
  obtain ⟨hq, hother, -, -⟩ := r.items_pop hp
  have hanch := (h.anchored f List.mem_cons_self).2
  have hitems : ∀ g ∈ fs, g.detached = true → r'.items g.queue = r.items g.queue := by
    intro g hg _
    exact hother _ (h.outer_ne hg).2
  have hwait := h.registry.waiting_pop hp s
  rw [backlog_cons, backlog_cons]
  by_cases hs : f.stream = s
  · subst hs
    by_cases hd : f.detached = true
    · rw [if_pos hd] at hanch
      rw [if_neg (hanch f.stream)] at hwait
      have hb : backlog r' fs f.stream = backlog r fs f.stream ++ [] :=
        backlog_congr (by rw [hwait, List.append_nil]) hitems
      simp [hd, hq, hb]
    · -- no other drain is busy with this stream, so all that is left waits in the registry
      rw [if_neg hd] at hanch
      rw [if_pos hanch] at hwait
      simp [hd, backlog_of_not_draining fun g hg => (h.outer_ne hg).1, hwait]
  · have hne : r.find? s ≠ some f.queue := by
      intro e
      exact (h.anchored f List.mem_cons_self).queue_ne h.registry e hs rfl
    rw [if_neg hne] at hwait
    have hb : backlog r' fs s = backlog r fs s ++ [] :=
      backlog_congr (by rw [hwait, List.append_nil]) hitems
    simp [hs, hb]

theorem pop (h : Orderly r trace (f :: fs)) {op : Operation} {r' : Registry Operation}
    (hp : r.pop f.queue = some (op, r')) :
    Orderly r' (.started f.stream op :: trace) (f :: fs) := by
  obtain ⟨-, -, hfind, hlen⟩ := r.items_pop hp
  have hlen' : r.queues.length ≤ r'.queues.length := Nat.le_of_eq hlen.symm
  refine ⟨h.registry.pop hp, fun g hg => (h.anchored g hg).congr hlen' hfind, h.streams,
    h.queues, ?_⟩
  intro s
  rw [startedOn_cons, enqueuedOn_cons, ← h.history s, h.backlog_pop hp s]
  by_cases hs : f.stream = s
  · simp [hs, Event.startedOn?, Event.enqueuedOn?]
  · simp [hs, Event.startedOn?, Event.enqueuedOn?]

section Opening
variable (hq : r.find? f.stream = some f.queue) (hs : ∀ g ∈ fs, g.stream ≠ f.stream)
include hq hs

theorem not_draining (h : Orderly r trace fs) :
    f.stream ∉ fs.map Frame.stream ∧ f.queue ∉ fs.map Frame.queue := by
  constructor
  · intro hmem
    obtain ⟨g, hg, e⟩ := List.mem_map.mp hmem
    exact hs g hg e
  · intro hmem
    obtain ⟨g, hg, e⟩ := List.mem_map.mp hmem
    exact (h.anchored g hg).queue_ne h.registry hq (hs g hg) e

theorem attach (h : Orderly r trace fs) (hd : f.detached = false) : Orderly r trace (f :: fs) := by
  obtain ⟨hstream, hqueue⟩ := h.not_draining hq hs
  have hf : f.Anchored r := ⟨h.registry.lt_of_find? hq, by rw [hd]; exact hq⟩
  refine ⟨h.registry, List.forall_mem_cons.mpr ⟨hf, h.anchored⟩,
    List.nodup_cons.mpr ⟨hstream, h.streams⟩, List.nodup_cons.mpr ⟨hqueue, h.queues⟩, ?_⟩
  intro t
  rw [backlog_cons, hd]
  exact h.history t

theorem detach (h : Orderly r trace fs) (hd : f.detached = true) :
    Orderly (r.unregister f.stream) trace (f :: fs) := by
  obtain ⟨hstream, hqueue⟩ := h.not_draining hq hs
  have hf : f.Anchored (r.unregister f.stream) := by
    refine ⟨h.registry.lt_of_find? hq, ?_⟩
    rw [if_pos hd]
    intro t
    rw [Registry.find?_unregister]
    split
    · exact fun e => by cases e
    · rename_i ht
      exact fun e => ht (h.registry.find?_inj hq e)
  refine ⟨h.registry.unregister _, List.forall_mem_cons.mpr ⟨hf, ?_⟩,
    List.nodup_cons.mpr ⟨hstream, h.streams⟩, List.nodup_cons.mpr ⟨hqueue, h.queues⟩, ?_⟩
  · exact fun g hg => (h.anchored g hg).unregister (hs g hg)
  intro t
  rw [backlog_cons, ← h.history t]
  by_cases ht : f.stream = t
  · subst ht
    have hb : backlog (r.unregister f.stream) fs f.stream = [] := by
      rw [backlog_of_not_draining hs, Registry.waiting_unregister, if_pos rfl]
    rw [hb, backlog_of_not_draining hs, r.waiting_of_find? hq, if_pos ⟨hd, rfl⟩,
      Registry.items_unregister, List.append_nil]
  · have hw : (r.unregister f.stream).waiting t = r.waiting t ++ [] := by
      rw [Registry.waiting_unregister, if_neg (fun e => ht e.symm), List.append_nil]
    rw [if_neg (fun e => ht e.2), backlog_congr hw fun g _ _ => r.items_unregister f.stream g.queue,
      List.append_nil, List.nil_append]

end Opening

theorem openDrain {m m' : Machine} {request : DrainRequest} {s : StreamId}
    (h : Orderly m.streams trace fs) (hs : ∀ g ∈ fs, g.stream ≠ s)
    (ho : m.openDrain request s = some (f, m')) : Orderly m'.streams trace (f :: fs) := by
  obtain ⟨q, hq, rfl, rfl⟩ := Machine.openDrain_eq_some ho
  dsimp only
  cases hd : request.detaches s with
  | true => exact (detach (f := { request, stream := s, queue := q }) hq hs h hd).hold q
  | false => exact (attach (f := { request, stream := s, queue := q }) hq hs h hd).hold q

/-- A queue may leave the registry when the drain of its stream is over. -/
theorem prune (h : Orderly r trace fs) (hs : ∀ g ∈ fs, g.stream ≠ f.stream) :
    Orderly (r.prune f.stream f.queue) trace fs := by
  refine ⟨h.registry.prune _ _, ?_, h.streams, h.queues, ?_⟩
  · intro g hg
    unfold Registry.prune
    split
    · exact (h.anchored g hg).unregister (hs g hg)
    · exact h.anchored g hg
  · intro s
    have hw : (r.prune f.stream f.queue).waiting s = r.waiting s ++ [] := by
      rw [Registry.waiting_prune, List.append_nil]
    rw [backlog_congr hw fun g _ _ => r.items_prune f.stream f.queue g.queue, List.append_nil]
    exact h.history s

/-- A drain that found its queue empty leaves nothing to the others. -/
theorem tail (h : Orderly r trace (f :: fs)) (hp : r.pop f.queue = none) : Orderly r trace fs := by
  have hitems := (r.pop_eq_none_iff f.queue).mp hp
  refine ⟨h.registry, (List.forall_mem_cons.mp h.anchored).2, (List.nodup_cons.mp h.streams).2,
    (List.nodup_cons.mp h.queues).2, ?_⟩
  intro s
  have hh := h.history s
  rw [backlog_cons, hitems] at hh
  simpa using hh

theorem closeDrain {m : Machine} (h : Orderly m.streams m.trace (f :: fs))
    (hp : m.streams.pop f.queue = none) :
    Orderly (m.closeDrain f).streams (m.closeDrain f).trace fs := by
  have hclosed := h.tail hp
  unfold Machine.closeDrain
  split
  · exact hclosed.release f.queue
  · rename_i hd
    have hpruned := hclosed.prune fun g hg => (h.outer_ne hg).1
    have hreleased := hpruned.release f.queue
    dsimp only
    split
    · exact hreleased
    · exact hreleased.note rfl

end Orderly

/-! ## Drains -/

namespace Run

def Orderly (run : Run) : Prop :=
  StreamMemory.Orderly run.machine.streams run.machine.trace (run.frame :: run.outer)

variable {run next : Run}

theorem not_draining {s : StreamId} (h : ¬ run.draining s = true) :
    ∀ g ∈ run.frame :: run.outer, g.stream ≠ s := by
  intro g hg e
  apply h
  unfold draining
  exact List.any_eq_true.mpr ⟨g, hg, by simpa using e⟩

theorem Orderly.nest (h : run.Orderly) (request : DrainRequest) (s : StreamId) :
    (run.nest request s).Orderly := by
  unfold Run.nest
  dsimp only
  split
  · exact h.note rfl
  · rename_i hs
    split
    · rename_i f m ho
      have hm : StreamMemory.Orderly (run.machine.report run.frame.stream request.announcement).streams
          (run.machine.report run.frame.stream request.announcement).trace
          (run.frame :: run.outer) := h.note rfl
      obtain ⟨q, -, -, rfl⟩ := Machine.openDrain_eq_some ho
      exact hm.openDrain (not_draining hs) ho
    · exact (h.note rfl).note rfl

theorem Orderly.perform (h : run.Orderly) (a : Act) : (run.perform a).Orderly := by
  cases a with
  | mark label => exact h.note rfl
  | panic => exact (h.note rfl).frame [] _
  | write b byte length offset => exact h.note rfl
  | read b length offset => exact h.note rfl
  | enqueue s acts => exact (h.enqueue s acts).note rfl
  | synchronize s => exact h.nest .synchronize s
  | destroy s => exact h.nest .destroy s
  | pending s => exact h.note rfl
  | free r b k =>
    unfold Run.perform Run.Orderly
    dsimp only
    rcases run.machine.freeBlock_eq run.frame.stream r b k with hf | ⟨e, -, hf⟩
    · rw [hf]
      exact h.note rfl
    · rw [hf]
      exact (((h.note rfl).note rfl).note rfl).note rfl

theorem Orderly.step (h : run.Orderly) (hs : run.step = .inr next) : next.Orderly := by
  rcases Run.step_eq_inr hs with
    ⟨a, rest, hrest, rfl⟩ | ⟨op, streams, hpop, rfl⟩ | ⟨f, outer, hpop, houter, rfl⟩
  · have hr : Run.Orderly { run with frame := { run.frame with rest } } := h.frame rest _
    exact hr.perform a
  · exact (h.pop hpop).frame op _
  · have hclosed := h.closeDrain hpop
    rw [houter] at hclosed
    exact hclosed.note rfl

theorem Orderly.last (h : run.Orderly) {done : SyncResult × Machine} (hs : run.step = .inl done) :
    StreamMemory.Orderly done.2.streams done.2.trace [] := by
  obtain ⟨hpop, houter, rfl⟩ := Run.step_eq_inl hs
  have hclosed := h.closeDrain hpop
  rwa [houter] at hclosed

end Run

namespace Machine

/-- Between calls no drain is in progress. -/
def Orderly (m : Machine) : Prop := StreamMemory.Orderly m.streams m.trace []

variable {m : Machine}

theorem Orderly.inOrder (h : m.Orderly) {past now : List Event} (hpast : past <:+ now)
    (hnow : now <:+ m.trace) (s : StreamId) : InOrder s past now := by
  have hh := h.history s
  have hstarted : startedOn s now <+: enqueuedOn s m.trace := by
    rw [← hh]
    exact (startedOn_mono hnow s).trans (List.prefix_append _ _)
  exact List.prefix_or_prefix_of_prefix hstarted (enqueuedOn_mono (hpast.trans hnow) s)

theorem Orderly.opened (h : m.Orderly) {request : DrainRequest} {s : StreamId} {frame : Frame}
    {machine : Machine} (ho : m.openDrain request s = some (frame, machine)) :
    Run.Orderly { machine, frame } := by
  obtain ⟨q, -, -, rfl⟩ := openDrain_eq_some ho
  exact StreamMemory.Orderly.openDrain h (by simp) ho

theorem Orderly.drain (h : m.Orderly) (request : DrainRequest) (s : StreamId) :
    (m.drain request s).2.Orderly := by
  apply drain_induction (P := Run.Orderly)
  · exact fun _ => h
  · exact fun _ _ ho => h.opened ho
  · exact fun _ _ hr hs => hr.step hs
  · exact fun _ _ hr hs => hr.last hs

end Machine

/-! ## Runs -/

/-- What happened is not taken back. -/
theorem drainStable_past (past : List Event) : DrainStable fun m => past <:+ m.trace where
  streams _ h := h
  emit _ h := h.trans (List.suffix_cons _ _)
  contents _ _ h := h
  free {m} s r b k h := by
    rcases m.freeBlock_eq s r b k with hf | ⟨e, -, hf⟩
    · rw [hf]
      exact h.trans (List.suffix_cons _ _)
    · rw [hf]
      exact (((h.trans (List.suffix_cons _ _)).trans (List.suffix_cons _ _)).trans
        (List.suffix_cons _ _)).trans (List.suffix_cons _ _)

/-- The machine is orderly, and `past` is the first part of its history. -/
structure Machine.Recalls (past : List Event) (m : Machine) : Prop where
  orderly : m.Orderly
  past : past <:+ m.trace

namespace Machine.Recalls

variable {past : List Event} {m m' : Machine} (h : m.Recalls past)
include h

theorem note {e : Event} (he : e.works = false) : (m.emit e).Recalls past :=
  ⟨h.orderly.note he, h.past.trans (List.suffix_cons e m.trace)⟩

theorem congr (hs : m'.streams = m.streams) (ht : m'.trace = m.trace) : m'.Recalls past := by
  obtain ⟨ho, hp⟩ := h
  unfold Machine.Orderly at ho
  refine ⟨?_, by rwa [ht]⟩
  unfold Machine.Orderly
  rwa [hs, ht]

theorem enqueue (s : StreamId) (op : Operation) : (m.enqueue s op).Recalls past :=
  ⟨h.orderly.enqueue s op, h.past.trans (List.suffix_cons _ m.trace)⟩

theorem giveBack (r : ResourceId) (b : BlockId) (bytes alignment : Nat) :
    (m.giveBack r b bytes alignment).Recalls past := by
  have hn := h.note (e := .returned b (Heap.layout bytes alignment)) rfl
  exact hn.congr (m.streams_giveBack r b bytes alignment) (m.trace_giveBack r b bytes alignment)

theorem takeBlock {r : ResourceId} {heap heap' : Heap} {bytes alignment : Nat} {b : BlockId}
    (hb : m.takeBlock r heap bytes alignment = .ok (b, heap', m')) : m'.Recalls past := by
  obtain ⟨-, -, rfl⟩ := takeBlock_eq_ok hb
  exact (h.note (e := .obtained ⟨b, r, bytes, alignment⟩) rfl).congr rfl rfl

theorem drain (request : DrainRequest) (s : StreamId) : (m.drain request s).2.Recalls past :=
  ⟨h.orderly.drain request s, (drainStable_past past).drain request s h.past⟩

end Machine.Recalls

theorem custody_recalls (past : List Event) :
    Custody (fun _ _ => True) True fun m _ _ => m.Recalls past where
  note _ hw h := h.note hw
  frame hs _ ht _ _ h := h.congr hs ht
  drain request s h := h.drain request s
  reuse _ _ h := h.congr rfl rfl
  refuse _ _ h := h.congr rfl rfl
  fresh _ _ hb h := (h.takeBlock hb).congr rfl rfl
  cache {_ _ _ r k b _} _ h := (h.note (e := .cached r k b) rfl).congr rfl rfl
  beginPass _ h := h.congr rfl rfl
  discard _ _ h := h.congr rfl rfl
  reorder _ h := h
  releaseKey {_ hand _ _ _ lists} h :=
    Custody.releaseKey_of_giveBack (I := fun m _ _ => m.Recalls past)
      (fun _ hw hn => hn.note hw) (fun request s hn => hn.drain request s)
      (fun {_ _ _ r b k} hn => hn.giveBack r b k.bytes k.alignment) hand lists h
  plainFresh _ _ hb h := (h.takeBlock hb).congr rfl rfl
  plainReturn _ _ _ h := h.giveBack _ _ _ _
  lend h := h.note rfl
  build {m blueprint} _ h := by
    cases blueprint with
    | emulated kind config =>
      exact (h.note (e := .logged (.resourceCreated kind config)) rfl).congr rfl rfl
    | _ => exact h.congr rfl rfl
  enqueue {_ s op} _ h := h.enqueue s op
  releaseAsync {_ r _ _} _ _ h := ⟨r, .inl rfl, h.note rfl⟩
  release {_ r _} _ _ h := ⟨r, .inl rfl, h.note rfl⟩

namespace Machine

theorem recalls_start (env : Environment) : (start env).Recalls [] :=
  ⟨Orderly.start, List.suffix_refl []⟩

theorem Recalls.run {past : List Event} {m : Machine} (h : m.Recalls past) (cs : List Call) :
    (m.run cs).Recalls past :=
  (custody_recalls past).run (m.obeys_any cs) h

/-- What callers and operations enqueue on a stream is the last that was ever enqueued on it, and an
act that enqueues nothing there leaves the history of the stream as it was. -/
structure Appending (s : StreamId) : Prop where
  call : ∀ (m : Machine) t op, enqueuedOn s (m.call (.enqueue t op)).trace =
    enqueuedOn s m.trace ++ if t = s then [op] else []
  act : ∀ (run : Run) a, enqueuedOn s (run.perform a).machine.trace =
    enqueuedOn s run.machine.trace ++ a.enqueues s

theorem appending (s : StreamId) : Appending s where
  call m t op := by
    change enqueuedOn s (.enqueued t op :: m.trace) = _
    rw [enqueuedOn_cons]
    by_cases ht : t = s <;> simp [Event.enqueuedOn?, ht]
  act := enqueuedOn_perform s

/-- Whatever callers do, and whatever operations do while they run: on each stream the operations
started so far, followed by those that wait, are the operations ever enqueued on it, in the order of
the enqueuing. -/
theorem started_append_waiting (env : Environment) (cs : List Call) (s : StreamId) :
    startedOn s ((start env).run cs).trace ++ ((start env).run cs).streams.waiting s =
        enqueuedOn s ((start env).run cs).trace ∧
      ((start env).run cs).pending s =
        (enqueuedOn s ((start env).run cs).trace).length -
          (startedOn s ((start env).run cs).trace).length ∧
      Appending s := by
  have h := ((recalls_start env).run cs).orderly.history s
  rw [backlog_nil] at h
  refine ⟨h, ?_, appending s⟩
  unfold pending
  rw [← h, List.length_append]
  omega

end Machine

end StreamMemory
