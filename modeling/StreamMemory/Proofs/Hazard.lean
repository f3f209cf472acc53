import StreamMemory.Proofs.Ownership
import StreamMemory.Proofs.StreamOrder

/-!
# Blocks in use

Work that accesses a block can still wait on a stream when the block is released there. The block
may then be handed out again on that stream only, and it may not be given back to the system before
the stream is synchronized. The invariant says that a block in a free list, or in hand, is accessed
by waiting operations of its key's stream only. Operations do not call resources and do not drain
streams here.
-/

set_option autoImplicit false

namespace StreamMemory

/-! ## Operations -/

namespace Operation

mutual
/-- Whether an act leaves blocks, resources and drains alone, also in what it enqueues. -/
def actInert : Act → Bool
  | .mark _ | .panic | .pending _ => true
  | .enqueue _ acts => inert acts
  | .write .. | .read .. | .synchronize _ | .destroy _ | .free .. => false

def inert : Operation → Bool
  | [] => true
  | a :: rest => actInert a && inert rest
end

/-- Whether an operation does nothing but access blocks, report, panic, and enqueue operations that
access no blocks. -/
def tame : Operation → Bool
  | [] => true
  | .write .. :: rest | .read .. :: rest => tame rest
  | a :: rest => actInert a && tame rest

theorem tame_of_inert {op : Operation} (h : inert op = true) : tame op = true := by
  induction op with
  | nil => rfl
  | cons a rest ih =>
    rw [inert, Bool.and_eq_true] at h
    cases a with
    | write b byte length offset => exact ih h.2
    | read b length offset => exact ih h.2
    | _ => exact Bool.and_eq_true_iff.mpr ⟨h.1, ih h.2⟩

theorem accesses_of_inert {op : Operation} (h : inert op = true) (b : BlockId) :
    op.accesses b = false := by
  induction op with
  | nil => rfl
  | cons a rest ih =>
    rw [inert, Bool.and_eq_true] at h
    unfold accesses at ih ⊢
    rw [List.any_cons, ih h.2, Bool.or_false]
    cases a with
    | write b byte length offset => cases h.1
    | read b length offset => cases h.1
    | _ => rfl

theorem tame_tail {a : Act} {rest : Operation} (h : tame (a :: rest) = true) :
    tame rest = true := by
  cases a with
  | write b byte length offset => exact h
  | read b length offset => exact h
  | _ => exact (Bool.and_eq_true_iff.mp h).2

end Operation

/-! ## Registries -/

namespace Registry

variable {r r' : Registry Operation}

/-- Whether an operation that waits on a stream accesses a block. -/
def access (r : Registry Operation) (s : StreamId) (b : BlockId) : Bool :=
  (r.waiting s).any (·.accesses b)

def Calm (r : Registry Operation) : Prop := ∀ q, ∀ op ∈ r.items q, op.tame = true

theorem Calm.congr (h : r.Calm) (hi : ∀ q, r'.items q = r.items q) : r'.Calm := by
  intro q op hop
  rw [hi] at hop
  exact h q op hop

theorem Calm.enqueue (h : r.Calm) {op : Operation} (ht : op.tame = true) (s : StreamId) :
    (r.enqueue s op).Calm := by
  intro q op' hop
  rcases mem_items_enqueue hop with hop | rfl
  · exact h q op' hop
  · exact ht

theorem Calm.pop (h : r.Calm) {q : QueueId} {op : Operation} (hp : r.pop q = some (op, r')) :
    r'.Calm ∧ op.tame = true := by
  obtain ⟨hq, hother, -, -⟩ := r.items_pop hp
  constructor
  · intro p op' hop
    by_cases hpq : p = q
    · subst hpq
      exact h p op' (hq ▸ List.mem_cons_of_mem op hop)
    · rw [hother p hpq] at hop
      exact h p op' hop
  · exact h q op (hq ▸ List.mem_cons_self)

theorem access_of_waiting_eq (h : ∀ s, r'.waiting s = r.waiting s) (s : StreamId) (b : BlockId) :
    r'.access s b = r.access s b := by
  unfold access
  rw [h]

theorem access_enqueue (hr : r.WellFormed) (s t : StreamId) (op : Operation) (b : BlockId) :
    (r.enqueue s op).access t b = (r.access t b || (t == s && op.accesses b)) := by
  unfold access
  rw [hr.waiting_enqueue]
  split
  · rename_i ht
    subst ht
    simp
  · rename_i ht
    simp [ht]

theorem access_of_pop (hr : r.WellFormed) {q : QueueId} {op : Operation}
    (hp : r.pop q = some (op, r')) {s : StreamId} {b : BlockId} (h : r'.access s b = true) :
    r.access s b = true := by
  unfold access at h ⊢
  rw [hr.waiting_pop hp s]
  split
  · rw [List.any_cons, h, Bool.or_true]
  · exact h

theorem access_of_unregister {s t : StreamId} {b : BlockId}
    (h : (r.unregister t).access s b = true) : r.access s b = true := by
  unfold access at h ⊢
  rw [waiting_unregister] at h
  split at h
  · cases h
  · exact h

end Registry

/-! ## Drains of tame operations -/

/-- What a drain of tame operations does to a machine. -/
structure Machine.Settles (m m' : Machine) : Prop where
  calm : m'.streams.Calm
  resources : m'.resources = m.resources
  layouts : m'.memory.blocks.map Block.layout = m.memory.blocks.map Block.layout
  /-- No block changes hands. -/
  events : ∃ es, m'.trace = es ++ m.trace ∧ ∀ e ∈ es, e.moves = false
  access : ∀ s b, m'.streams.access s b = true → m.streams.access s b = true

namespace Machine.Settles

variable {m n n' : Machine}

theorem refl (h : m.streams.Calm) : m.Settles m :=
  ⟨h, rfl, rfl, ⟨[], rfl, fun _ he => by cases he⟩, fun _ _ ha => ha⟩

theorem emit (h : m.Settles n) {e : Event} (he : e.moves = false) : m.Settles (n.emit e) := by
  obtain ⟨es, hes, hq⟩ := h.events
  refine ⟨h.calm, h.resources, h.layouts, ⟨e :: es, congrArg (e :: ·) hes, ?_⟩, h.access⟩
  exact List.forall_mem_cons.mpr ⟨he, hq⟩

theorem streams (h : m.Settles n) {r : Registry Operation} (hc : r.Calm)
    (ha : ∀ s b, r.access s b = true → n.streams.access s b = true) :
    m.Settles { n with streams := r } :=
  ⟨hc, h.resources, h.layouts, h.events, fun s b hr => h.access s b (ha s b hr)⟩

theorem contents (h : m.Settles n) (b : BlockId) (f : Contents → Contents) :
    m.Settles { n with memory := n.memory.modify b f } :=
  ⟨h.calm, h.resources, (SystemMemory.layouts_modify _ b f).trans h.layouts, h.events, h.access⟩

theorem hold (h : m.Settles n) (q : QueueId) :
    m.Settles { n with streams := n.streams.hold q } :=
  h.streams (h.calm.congr fun p => n.streams.items_hold q p) fun s b ha => by
    rwa [Registry.access_of_waiting_eq (n.streams.waiting_hold q) s b] at ha

theorem openDrain {request : DrainRequest} {s : StreamId} {f : Frame} (h : m.Settles n)
    (ho : n.openDrain request s = some (f, n')) : m.Settles n' := by
  obtain ⟨q, -, -, rfl⟩ := openDrain_eq_some ho
  have hr : m.Settles { n with
      streams := (if request.detaches s then n.streams.unregister s else n.streams) } := by
    split
    · exact h.streams (h.calm.congr fun _ => rfl) fun _ _ ha => Registry.access_of_unregister ha
    · exact h
  exact hr.hold q

theorem closeDrain (h : m.Settles n) (f : Frame) : m.Settles (n.closeDrain f) := by
  have hrelease : ∀ {r : Registry Operation}, m.Settles { n with streams := r } →
      m.Settles { n with streams := r.release f.queue } := by
    intro r hr
    exact hr.streams (hr.calm.congr fun p => r.items_release f.queue p) fun s b ha => by
      rwa [Registry.access_of_waiting_eq (r.waiting_release f.queue) s b] at ha
  have hprune : m.Settles { n with streams := n.streams.prune f.stream f.queue } :=
    h.streams (h.calm.congr fun p => n.streams.items_prune f.stream f.queue p) fun s b ha => by
      rwa [Registry.access_of_waiting_eq (n.streams.waiting_prune f.stream f.queue) s b] at ha
  unfold Machine.closeDrain
  split
  · exact hrelease h
  · dsimp only
    split
    · exact hrelease hprune
    · exact (hrelease hprune).emit rfl

theorem enqueue (h : m.Settles n) (hr : n.streams.WellFormed) {op : Operation}
    (hi : op.inert = true) (s : StreamId) : m.Settles (n.enqueue s op) := by
  apply emit
  · apply h.streams (h.calm.enqueue (Operation.tame_of_inert hi) s)
    intro t b ha
    rw [Registry.access_enqueue hr, Operation.accesses_of_inert hi, Bool.and_false,
      Bool.or_false] at ha
    exact ha
  · rfl

end Machine.Settles

theorem Machine.waiting_closeDrain (m : Machine) (f : Frame) (s : StreamId) :
    (m.closeDrain f).streams.waiting s = m.streams.waiting s := by
  have hprune : ((m.streams.prune f.stream f.queue).release f.queue).waiting s =
      m.streams.waiting s := by
    rw [Registry.waiting_release, Registry.waiting_prune]
  unfold Machine.closeDrain
  split
  · exact m.streams.waiting_release f.queue s
  · dsimp only
    split
    · exact hprune
    · exact hprune

/-- A drain of tame operations is never nested. -/
structure Run.Gentle (m : Machine) (request : DrainRequest) (s : StreamId) (run : Run) : Prop where
  orderly : run.Orderly
  settles : m.Settles run.machine
  alone : run.outer = []
  rest : run.frame.rest.tame = true
  request : run.frame.request = request
  stream : run.frame.stream = s

namespace Run.Gentle

variable {m : Machine} {request : DrainRequest} {s : StreamId} {run next : Run}

theorem perform (h : run.Gentle m request s) {a : Act} {rest : Operation}
    (ha : Operation.tame (a :: rest) = true) : (run.perform a).Gentle m request s := by
  have ho := h.orderly.perform a
  cases a with
  | mark label => exact ⟨ho, h.settles.emit rfl, h.alone, h.rest, h.request, h.stream⟩
  | panic => exact ⟨ho, h.settles.emit rfl, h.alone, rfl, h.request, h.stream⟩
  | write b byte length offset =>
    exact ⟨ho, (h.settles.contents b _).emit rfl, h.alone, h.rest, h.request, h.stream⟩
  | read b length offset => exact ⟨ho, h.settles.emit rfl, h.alone, h.rest, h.request, h.stream⟩
  | enqueue t acts =>
    have hi : Operation.inert acts = true := (Bool.and_eq_true_iff.mp ha).1
    exact ⟨ho, (h.settles.enqueue h.orderly.registry hi t).emit rfl, h.alone, h.rest, h.request,
      h.stream⟩
  | pending t => exact ⟨ho, h.settles.emit rfl, h.alone, h.rest, h.request, h.stream⟩
  | synchronize t => cases ha
  | destroy t => cases ha
  | free r b k => cases ha

theorem step (h : run.Gentle m request s) (hs : run.step = .inr next) :
    next.Gentle m request s := by
  have ho := h.orderly.step hs
  rcases Run.step_eq_inr hs with
    ⟨a, rest, hrest, rfl⟩ | ⟨op, streams, hp, rfl⟩ | ⟨f, outer, -, houter, rfl⟩
  · have htame := h.rest
    rw [hrest] at htame
    have hr : Run.Gentle m request s { run with frame := { run.frame with rest } } :=
      ⟨h.orderly.frame rest _, h.settles, h.alone, Operation.tame_tail htame, h.request, h.stream⟩
    exact hr.perform htame
  · obtain ⟨hc, htame⟩ := h.settles.calm.pop hp
    have hm := h.settles.streams hc fun t b ha =>
      Registry.access_of_pop h.orderly.registry hp ha
    exact ⟨ho, hm.emit rfl, h.alone, htame, h.request, h.stream⟩
  · rw [h.alone] at houter
    cases houter

theorem last (h : run.Gentle m request s) {done : SyncResult × Machine}
    (hs : run.step = .inl done) :
    m.Settles done.2 ∧ (request = .synchronize → done.2.streams.waiting s = []) := by
  obtain ⟨hp, -, rfl⟩ := Run.step_eq_inl hs
  refine ⟨h.settles.closeDrain run.frame, ?_⟩
  rintro rfl
  have hanch := (List.forall_mem_cons.mp h.orderly.anchored).1.2
  have hd : run.frame.detached = false := by
    unfold Frame.detached
    rw [h.request]
    rfl
  rw [hd, h.stream] at hanch
  rw [Machine.waiting_closeDrain, Registry.waiting_of_find? _ hanch]
  exact (run.machine.streams.pop_eq_none_iff run.frame.queue).mp hp

end Run.Gentle

theorem Machine.settles_drain {m : Machine} (ho : m.Orderly) (hc : m.streams.Calm)
    (request : DrainRequest) (s : StreamId) :
    m.Settles (m.drain request s).2 ∧
      (request = .synchronize → (m.drain request s).2.streams.waiting s = []) := by
  apply drain_induction (P := Run.Gentle m request s)
    (Q := fun n => m.Settles n ∧ (request = .synchronize → n.streams.waiting s = []))
  · intro hnone
    refine ⟨Settles.refl hc, fun _ => ?_⟩
    unfold Registry.waiting
    rw [openDrain_eq_none hnone]
  · intro frame machine hopen
    have hm := (Settles.refl hc).openDrain hopen
    have hrun := ho.opened hopen
    obtain ⟨q, -, rfl, -⟩ := openDrain_eq_some hopen
    exact ⟨hrun, hm, rfl, rfl, rfl, rfl⟩
  · exact fun _ _ hr hs => hr.step hs
  · exact fun _ _ hr hs => hr.last hs

/-! ## The invariant -/

/-- Whether an operation that was enqueued on a stream and not started accesses a block. -/
def usedOn (s : StreamId) (b : BlockId) (trace : List Event) : Bool :=
  (pendingOn s trace).any (·.accesses b)

theorem Machine.Orderly.usedOn_eq {m : Machine} (h : m.Orderly) (s : StreamId) (b : BlockId) :
    usedOn s b m.trace = m.streams.access s b := by
  have hh := h.history s
  rw [backlog_nil] at hh
  unfold usedOn pendingOn Registry.access
  rw [← hh, List.drop_left]

/-- Whenever a block was given back to the system, it was not in use. -/
def SafeReturns : List Event → Prop
  | [] => True
  | .returned b _ :: trace => (∀ s, usedOn s b trace = false) ∧ SafeReturns trace
  | _ :: trace => SafeReturns trace

theorem safeReturns_cons {e : Event} (trace : List Event) (h : e.moves = false) :
    SafeReturns (e :: trace) ↔ SafeReturns trace := by
  cases e <;> first | exact Iff.rfl | cases h

theorem SafeReturns.at_return {later earlier : List Event} {b : BlockId} {l : Layout}
    (h : SafeReturns (later ++ .returned b l :: earlier)) (s : StreamId) :
    usedOn s b earlier = false := by
  induction later with
  | nil => exact h.1 s
  | cons e later ih =>
    apply ih
    cases e with
    | returned _ _ => exact h.2
    | _ => exact h

/-- Blocks in free lists and in hand are accessed by waiting operations of their key's stream only,
and blocks that were given back are not accessed. -/
structure Guarded (m : Machine) (hand : List Parcel) : Prop where
  orderly : m.Orderly
  calm : m.streams.Calm
  fair : FairReleases m.trace
  emulated : ∀ r x, m.resource? r = some x → x.emulated? ≠ none
  bounded : ∀ s b, m.streams.access s b = true → b < m.memory.blocks.length
  kept : ∀ p ∈ m.cached ++ hand, ∀ s, s ≠ p.key.stream → m.streams.access s p.block = false
  gone : ∀ y ∈ returned m.trace, ∀ s, m.streams.access s y.1 = false
  safe : SafeReturns m.trace

theorem fairReleases_append {es trace : List Event} (h : ∀ e ∈ es, e.moves = false) :
    FairReleases (es ++ trace) ↔ FairReleases trace := by
  induction es with
  | nil => exact Iff.rfl
  | cons e es ih =>
    rw [List.forall_mem_cons] at h
    rw [List.cons_append, fairReleases_cons _ h.1, ih h.2]

theorem safeReturns_append {es trace : List Event} (h : ∀ e ∈ es, e.moves = false) :
    SafeReturns (es ++ trace) ↔ SafeReturns trace := by
  induction es with
  | nil => exact Iff.rfl
  | cons e es ih =>
    rw [List.forall_mem_cons] at h
    rw [List.cons_append, safeReturns_cons _ h.1, ih h.2]

theorem returned_append {es trace : List Event} (h : ∀ e ∈ es, e.moves = false) :
    returned (es ++ trace) = returned trace := by
  induction es with
  | nil => rfl
  | cons e es ih =>
    rw [List.forall_mem_cons] at h
    rw [List.cons_append, returned_cons _ h.1, ih h.2]

namespace Guarded

variable {m m' : Machine} {hand hand' : List Parcel} {r : ResourceId} {k : BlockKey} {b : BlockId}

theorem start (env : Environment) : Guarded (Machine.start env) [] := by
  refine ⟨StreamMemory.Orderly.start, ?_, trivial, ?_, ?_, ?_, ?_, trivial⟩
  · intro q op hop
    simp [Machine.start, Registry.items] at hop
  · intro q x hx
    simp [Machine.start, Machine.resource?] at hx
  · intro s c ha
    cases ha
  · intro p hp
    cases hp
  · intro y hy
    cases hy

theorem note (h : Guarded m hand) {e : Event} (he : e.moves = false) (hw : e.works = false) :
    Guarded (m.emit e) hand := by
  refine ⟨h.orderly.note hw, h.calm, (fairReleases_cons _ he).mpr h.fair, h.emulated, h.bounded,
    h.kept, ?_, (safeReturns_cons _ he).mpr h.safe⟩
  intro y hy
  exact h.gone y (by rwa [← returned_cons m.trace he])

theorem move (h : Guarded m hand) (hs : m'.streams = m.streams) (ht : m'.trace = m.trace)
    (hl : m'.memory.blocks.length = m.memory.blocks.length)
    (hx : ∀ r x, m'.resource? r = some x → x.emulated? ≠ none)
    (hp : ∀ p ∈ m'.cached ++ hand', p ∈ m.cached ++ hand) : Guarded m' hand' := by
  have ho := h.orderly
  unfold Machine.Orderly at ho
  refine ⟨?_, ?_, ?_, hx, ?_, ?_, ?_, ?_⟩
  · unfold Machine.Orderly
    rwa [hs, ht]
  · rw [hs]
    exact h.calm
  · rw [ht]
    exact h.fair
  · rw [hs, hl]
    exact h.bounded
  · rw [hs]
    exact fun p hm => h.kept p (hp p hm)
  · rw [hs, ht]
    exact h.gone
  · rw [ht]
    exact h.safe

theorem perm (h : Guarded m hand) (hp : hand'.Perm hand) : Guarded m hand' :=
  h.move rfl rfl rfl h.emulated fun _ => (hp.append_left m.cached).mem_iff.mp

theorem create (h : Guarded m hand) (e : Emulated) (he : e.free.lists = []) :
    Guarded (m.create (.emulated e)).2 hand := by
  refine h.move rfl rfl rfl ?_ ?_
  · intro q x hq
    rw [Machine.resource?_create] at hq
    split at hq
    · cases hq
      exact fun hn => by cases hn
    · exact h.emulated q x hq
  · have hnone : Resource.parcels m.resources.length (.emulated e) = [] :=
      congrArg (parcels m.resources.length) he
    unfold Machine.cached Machine.create
    rw [shelves_append, hnone, List.append_nil]
    exact fun _ hp => hp

theorem setEmulated (h : Guarded m hand) {e e' : Emulated} (he : m.emulated? r = some e)
    (hp : (parcels r e'.free.lists ++ hand').Perm (parcels r e.free.lists ++ hand)) :
    Guarded (m.setEmulated r e') hand' := by
  have hx := Machine.emulated?_eq_some.mp he
  refine h.move rfl rfl rfl ?_ fun _ => (Machine.cached_setEmulated he hp).mem_iff.mp
  intro q x hq
  have hset := Machine.resource?_setResource m (Machine.lt_of_resource? hx) (.emulated e') q
  unfold Machine.setEmulated at hq
  rw [hset] at hq
  split at hq
  · cases hq
    exact fun hn => by cases hn
  · exact h.emulated q x hq

theorem setHeap (h : Guarded m hand) {x : Resource} (hx : m.resource? r = some x) (heap : Heap) :
    Guarded (m.setResource r (x.setHeap heap)) hand := by
  have hsame : (x.setHeap heap).parcels r = x.parcels r := by
    cases x <;> rfl
  refine h.move rfl rfl rfl ?_ fun _ =>
    ((Machine.cached_setResource hx hsame).append_right hand).mem_iff.mp
  intro q y hy
  rw [Machine.resource?_setResource _ (Machine.lt_of_resource? hx)] at hy
  split at hy
  · cases hy
    have hn := h.emulated r x hx
    cases x with
    | emulated e => exact fun he => by cases he
    | _ => exact absurd rfl hn
  · exact h.emulated q y hy

theorem discard (h : Guarded m hand) {x : Resource} (hx : m.resource? r = some x) :
    Guarded { m with resources := m.resources.set r none } (x.parcels r ++ hand) :=
  h.move rfl rfl rfl (fun q y hy => h.emulated q y (Machine.resource?_of_discard hy).2)
    fun _ => (Machine.cached_discard hx hand).mem_iff.mp

/-- Nothing accesses a block that did not exist. -/
theorem takeBlock (h : Guarded m hand) {heap heap' : Heap}
    (hb : m.takeBlock r heap k.bytes k.alignment = .ok (b, heap', m')) :
    Guarded m' (⟨r, k, b⟩ :: hand) := by
  obtain ⟨rfl, -, rfl⟩ := Machine.takeBlock_eq_ok hb
  refine ⟨h.orderly.note rfl, h.calm, h.fair, h.emulated, ?_, ?_, h.gone, h.safe⟩
  · intro s c ha
    have hlt := h.bounded s c ha
    dsimp only
    rw [List.length_append]
    exact Nat.lt_add_right _ hlt
  · intro p hp s hs
    have hp' := List.perm_middle.mem_iff.mp hp
    rcases List.mem_cons.mp hp' with rfl | hp'
    · apply Bool.eq_false_iff.mpr
      intro ha
      exact Nat.lt_irrefl _ (h.bounded s _ ha)
    · exact h.kept p hp' s hs

theorem giveBack (h : Guarded m (⟨r, k, b⟩ :: hand)) (hb : ∀ s, m.streams.access s b = false) :
    Guarded (m.giveBack r b k.bytes k.alignment) hand := by
  have hback : Guarded (m.emit (.returned b (Heap.layout k.bytes k.alignment))) hand := by
    refine ⟨h.orderly.note rfl, h.calm, h.fair, h.emulated, h.bounded, ?_, ?_, ?_⟩
    · intro p hp
      exact h.kept p (List.perm_middle.mem_iff.mpr (List.mem_cons_of_mem _ hp))
    · intro y hy
      rcases List.mem_cons.mp hy with rfl | hy
      · exact hb
      · exact h.gone y hy
    · exact ⟨fun s => (h.orderly.usedOn_eq s b).trans (hb s), h.safe⟩
  rcases m.giveBack_eq r b k.bytes k.alignment with ⟨-, e⟩ | ⟨x, hx, e⟩
  · rw [e]
    exact hback
  · rw [e]
    exact hback.setHeap hx _

theorem lend {p : Parcel} (h : Guarded m (p :: hand)) : Guarded (m.emit (.lent p.loan)) hand :=
  ⟨h.orderly.note rfl, h.calm, h.fair, h.emulated, h.bounded,
    fun q hq => h.kept q (List.perm_middle.mem_iff.mpr (List.mem_cons_of_mem _ hq)), h.gone, h.safe⟩

theorem shelve (h : Guarded m hand) : Guarded (m.emit (.cached r k b)) hand :=
  ⟨h.orderly.note rfl, h.calm, h.fair, h.emulated, h.bounded, h.kept, h.gone, h.safe⟩

theorem takeUp (h : Guarded m hand) {p : Parcel} (hp : p.loan ∈ onLoan m.trace)
    (ha : ∀ s, s ≠ p.key.stream → m.streams.access s p.block = false) :
    Guarded (m.emit (.released p.loan)) (p :: hand) := by
  refine ⟨h.orderly.note rfl, h.calm, ⟨hp, h.fair⟩, h.emulated, h.bounded, ?_, h.gone, h.safe⟩
  intro q hq
  rcases List.mem_cons.mp (List.perm_middle.mem_iff.mp hq) with rfl | hq
  · exact ha
  · exact h.kept q hq

theorem settle (h : Guarded m hand) (hs : m.Settles m') (ho : m'.Orderly) : Guarded m' hand := by
  obtain ⟨es, hes, hq⟩ := hs.events
  have haccess : ∀ s c, m.streams.access s c = false → m'.streams.access s c = false := by
    intro s c hm
    apply Bool.eq_false_iff.mpr
    intro ha
    exact Bool.eq_false_iff.mp hm (hs.access s c ha)
  have hlen := congrArg List.length hs.layouts
  rw [List.length_map, List.length_map] at hlen
  refine ⟨ho, hs.calm, ?_, ?_, ?_, ?_, ?_, ?_⟩
  · rw [hes, fairReleases_append hq]
    exact h.fair
  · intro r x hx
    rw [Machine.resource?_congr hs.resources] at hx
    exact h.emulated r x hx
  · intro s c ha
    rw [hlen]
    exact h.bounded s c (hs.access s c ha)
  · unfold Machine.cached
    rw [hs.resources]
    exact fun p hp s hne => haccess s p.block (h.kept p hp s hne)
  · rw [hes, returned_append hq]
    exact fun y hy s => haccess s y.1 (h.gone y hy s)
  · rw [hes, safeReturns_append hq]
    exact h.safe

theorem drain (h : Guarded m hand) (request : DrainRequest) (s : StreamId) :
    Guarded (m.drain request s).2 hand :=
  h.settle (Machine.settles_drain h.orderly h.calm request s).1 (h.orderly.drain request s)

/-- An operation that is enqueued accesses blocks on loan only, which no free list holds. -/
theorem enqueue (h : Guarded m hand) (ho : Owned m hand) {s : StreamId} {op : Operation}
    (htame : op.tame = true)
    (hop : ∀ b, op.accesses b = true → b ∈ (onLoan m.trace).map Loan.block) :
    Guarded (m.enqueue s op) hand := by
  have haccess : ∀ t c, (m.enqueue s op).streams.access t c = true →
      m.streams.access t c = true ∨ c ∈ (onLoan m.trace).map Loan.block := by
    intro t c ha
    unfold Machine.enqueue at ha
    rw [Machine.streams_emit, Registry.access_enqueue h.orderly.registry, Bool.or_eq_true,
      Bool.and_eq_true] at ha
    exact ha.imp_right fun hc => hop c hc.2
  refine ⟨h.orderly.enqueue s op, h.calm.enqueue htame s, h.fair, h.emulated, ?_, ?_, ?_, h.safe⟩
  · intro t c ha
    rcases haccess t c ha with ha | hc
    · exact h.bounded t c ha
    · exact (ho.apart hc).1
  · intro p hp t ht
    apply Bool.eq_false_iff.mpr
    intro ha
    rcases haccess t p.block ha with ha | hc
    · exact Bool.eq_false_iff.mp (h.kept p hp t ht) ha
    · exact (ho.apart hc).2.1 p hp rfl
  · intro y hy t
    apply Bool.eq_false_iff.mpr
    intro ha
    rcases haccess t y.1 ha with ha | hc
    · exact Bool.eq_false_iff.mp (h.gone y hy t) ha
    · exact (ho.apart hc).2.2 y hy rfl

end Guarded

/-! ## Release passes -/

namespace Guarded

variable {m : Machine} {hand pass : List Parcel} {r : ResourceId} {k : BlockKey}

theorem synchronize (h : Guarded m hand) (s : StreamId) :
    Guarded (m.synchronize s).2 hand ∧ ∀ b, (m.synchronize s).2.streams.access s b = false := by
  have hwaiting : (m.synchronize s).2.streams.waiting s = [] :=
    (Machine.settles_drain h.orderly h.calm .synchronize s).2 rfl
  refine ⟨h.drain .synchronize s, fun b => ?_⟩
  unfold Registry.access
  rw [hwaiting]
  rfl

theorem synchronizeNoThrow (h : Guarded m hand) (s : StreamId) :
    Guarded (m.synchronizeNoThrow s) hand ∧
      ∀ b, (m.synchronizeNoThrow s).streams.access s b = false := by
  obtain ⟨hdrain, haccess⟩ := h.synchronize s
  rcases m.synchronizeNoThrow_eq s with e | ⟨f, e⟩
  · rw [e]
    exact ⟨hdrain, haccess⟩
  · rw [e]
    exact ⟨hdrain.note rfl rfl, haccess⟩

/-- Once the stream of its key is done, a block in a free list or in hand is not in use. -/
theorem idle (h : Guarded m hand) {p : Parcel} (hp : p ∈ m.cached ++ hand)
    (hown : ∀ b, m.streams.access p.key.stream b = false) (s : StreamId) :
    m.streams.access s p.block = false := by
  by_cases hs : s = p.key.stream
  · rw [hs]
    exact hown p.block
  · exact h.kept p hp s hs

/-- Giving blocks back changes no stream, so the blocks of a key can be given back in turn. -/
theorem giveBacks {bs : List BlockId}
    (h : Guarded m (bs.map (fun b => ⟨r, k, b⟩) ++ hand))
    (hbs : ∀ b ∈ bs, ∀ s, m.streams.access s b = false) :
    Guarded (bs.foldl (fun m b => m.giveBack r b k.bytes k.alignment) m) hand := by
  induction bs generalizing m with
  | nil => exact h
  | cons b bs ih =>
    rw [List.forall_mem_cons] at hbs
    apply ih (h.giveBack hbs.1)
    rw [m.streams_giveBack]
    exact hbs.2

/-- The stream of a key is synchronized before its blocks are given back. -/
theorem releaseKey {bs : List BlockId} (h : Guarded m (bs.map (fun b => ⟨r, k, b⟩) ++ hand)) :
    Guarded (m.releaseKey r k bs) hand := by
  obtain ⟨hs, haccess⟩ := h.synchronizeNoThrow k.stream
  apply hs.giveBacks
  intro b hb
  have hp : (⟨r, k, b⟩ : Parcel) ∈ bs.map (fun b => ⟨r, k, b⟩) := List.mem_map_of_mem hb
  exact hs.idle (List.mem_append_right _ (List.mem_append_left _ hp)) haccess

end Guarded

/-! ## Runs -/

namespace Machine

/-- All resources are emulated. An operation is enqueued while the blocks that it accesses are on
loan. A block is given up while it is on loan, on a stream such that operations which wait on other
streams do not access it; the default stream stands for a synchronous release. -/
def Careful (m : Machine) : Call → Prop
  | .build blueprint => ∃ kind config, blueprint = .emulated kind config
  | .enqueue _ op =>
    op.tame = true ∧ ∀ b, op.accesses b = true → b ∈ (onLoan m.trace).map Loan.block
  | .releaseAsync r x s =>
    r = x.resource ∧ x ∈ onLoan m.trace ∧ ∀ t, t ≠ s → usedOn t x.block m.trace = false
  | .release r x =>
    r = x.resource ∧ x ∈ onLoan m.trace ∧
      ∀ t, t ≠ defaultStream → usedOn t x.block m.trace = false
  | _ => True

/-- The books are right, and no block is in use that should not be. -/
def Secured (m : Machine) (hand pass : List Parcel) : Prop :=
  Owned m (hand ++ pass) ∧ Guarded m (hand ++ pass)

variable {m : Machine} {hand pass : List Parcel}

theorem Secured.audited (h : m.Secured hand pass) : m.Audited hand pass := fun _ => h.1

theorem Audited.secured (h : m.Audited hand pass) (hg : Guarded m (hand ++ pass)) :
    m.Secured hand pass :=
  ⟨h hg.fair, hg⟩

theorem Secured.giveUp (h : m.Secured [] []) {x : Loan} {s : StreamId}
    (hx : x ∈ onLoan m.trace) (ha : ∀ t, t ≠ s → usedOn t x.block m.trace = false) :
    Taken False (fun m hand => m.Secured hand []) m x.resource x s := by
  refine ⟨x.resource, .inl rfl, ?_⟩
  have hp := h.audited.giveUp ⟨x.resource, ⟨s, x.bytes, x.alignment⟩, x.block⟩
  refine hp.secured
    (h.2.takeUp (p := ⟨x.resource, ⟨s, x.bytes, x.alignment⟩, x.block⟩) hx fun t ht => ?_)
  rw [← h.2.orderly.usedOn_eq]
  exact ha t ht

end Machine

theorem custody_secured : Custody Machine.Careful False Machine.Secured where
  note he hw h := (custody_audited.note he hw h.audited).secured (h.2.note he hw)
  frame {m m' _ _} hs hr ht hl hv h := by
    have hlen := congrArg List.length hl
    rw [List.length_map, List.length_map] at hlen
    apply (custody_audited.frame hs hr ht hl hv h.audited).secured
    apply h.2.move hs ht hlen
    · intro r x hx
      rw [Machine.resource?_congr hr] at hx
      exact h.2.emulated r x hx
    · unfold Machine.cached
      rw [hr]
      exact fun _ hp => hp
  drain request s h :=
    (custody_audited.drain request s h.audited).secured (h.2.drain request s)
  reuse {m hand pass r b e e' k} he hu h := by
    have hperm := (parcels_reuse r (hand ++ pass) (h.1.sound r e he) hu).2
    exact (custody_audited.reuse he hu h.audited).secured (h.2.setEmulated he hperm)
  refuse {m hand pass r e e' k} he hr h := by
    apply (custody_audited.refuse he hr h.audited).secured
    apply h.2.setEmulated he
    obtain ⟨rfl, -⟩ := Emulated.reserve?_eq_some hr
    exact List.Perm.refl _
  fresh {m m' hand r heap b e e' k} he hr hb h := by
    apply (custody_audited.fresh he hr hb h.audited).secured
    apply (h.2.takeBlock hb).setEmulated ((Machine.emulated?_takeBlock hb r).trans he)
    obtain ⟨rfl, -⟩ := Emulated.reserve?_eq_some hr
    exact List.Perm.refl _
  cache {m hand pass r k b e} he h :=
    (custody_audited.cache he h.audited).secured
      (h.2.setEmulated he (parcels_cache r (hand ++ pass) e k b)).shelve
  beginPass {m hand r e} he h :=
    (custody_audited.beginPass he h.audited).secured
      (h.2.setEmulated he (parcels_beginPass r hand e))
  discard _ hx h := by
    apply (custody_audited.discard trivial hx h.audited).secured
    apply (h.2.discard hx).perm
    rw [List.append_nil]
    exact List.perm_append_comm
  reorder {m hand pass pass'} hp h :=
    (custody_audited.reorder hp h.audited).secured (h.2.perm (hp.symm.append_left hand))
  releaseKey {m hand r k bs lists} h := by
    apply (custody_audited.releaseKey h.audited).secured
    exact (h.2.perm (List.perm_append_comm_assoc _ _ _)).releaseKey
  plainFresh hx hn _ h := absurd hn (h.2.emulated _ _ hx)
  plainReturn hx hn _ h := absurd hn (h.2.emulated _ _ hx)
  lend h := (custody_audited.lend h.audited).secured h.2.lend
  build {m blueprint} hl h := by
    obtain ⟨kind, config, rfl⟩ := hl
    have hlog := h.2.note (e := .logged (.resourceCreated kind config)) rfl rfl
    exact (custody_audited.build trivial h.audited).secured (hlog.create { kind, config } rfl)
  enqueue {m s op} hl h := by
    have haudited : (m.enqueue s op).Audited [] [] := custody_audited.enqueue trivial h.audited
    exact haudited.secured (h.2.enqueue h.1 hl.1 hl.2)
  releaseAsync hl _ h := by
    obtain ⟨rfl, hx, ha⟩ := hl
    exact h.giveUp hx ha
  release hl _ h := by
    obtain ⟨rfl, hx, ha⟩ := hl
    exact h.giveUp hx ha

namespace Machine

variable {m : Machine}

theorem Secured.start (env : Environment) : (start env).Secured [] [] :=
  ⟨Owned.start env, Guarded.start env⟩

/-- What an asynchronous allocation hands out is in use on its own stream only. -/
theorem Secured.allocateAsync (h : m.Secured [] []) {r : ResourceId} {k : BlockKey} {b : BlockId}
    {m' : Machine} (ha : m.allocateAsync r k = (.ok b, m')) {s : StreamId} (hs : s ≠ k.stream) :
    usedOn s b m'.trace = false := by
  have hserved := custody_secured.allocateAsync r k h
  rw [ha] at hserved
  have hm : m'.Secured [⟨r, k, b⟩] [] := hserved
  rw [hm.2.orderly.usedOn_eq]
  exact hm.2.kept ⟨r, k, b⟩ (List.mem_append_right _ List.mem_cons_self) s hs

/-- What a synchronous allocation hands out is not in use: the default stream, on which it was
allocated, was synchronized afterwards. -/
theorem Secured.allocate (h : m.Secured [] []) {r : ResourceId} {bytes alignment : Nat}
    {b : BlockId} {m' : Machine} (ha : m.allocate r bytes alignment = (.ok b, m')) (s : StreamId) :
    usedOn s b m'.trace = false := by
  unfold Machine.allocate at ha
  split at ha
  · rename_i backend hb
    rcases backend?_eq_some hb with ⟨e, -, rfl⟩ | ⟨heap, hr, -⟩
    · obtain ⟨m₁, m₂, h₁, h₂, h₃⟩ := Backend.allocate_eq_ok ha
      obtain rfl : (m.synchronize defaultStream).2 = m₁ := congrArg Prod.snd h₁
      obtain rfl : (m₂.synchronize defaultStream).2 = m' := congrArg Prod.snd h₃
      have hfirst : (m.synchronize defaultStream).2.Secured [] [] :=
        custody_secured.drain .synchronize defaultStream h
      have hserved := custody_secured.allocateAsync r ⟨defaultStream, bytes, alignment⟩ hfirst
      rw [show Machine.allocateAsync _ r ⟨defaultStream, bytes, alignment⟩ = (.ok b, m₂) from h₂]
        at hserved
      have hm₂ : m₂.Secured [⟨r, ⟨defaultStream, bytes, alignment⟩, b⟩] [] := hserved
      obtain ⟨hlast, hdone⟩ := hm₂.2.synchronize defaultStream
      rw [hlast.orderly.usedOn_eq]
      exact hlast.idle (List.mem_append_right _ List.mem_cons_self) hdone s
    · exact absurd rfl (h.2.emulated r _ hr)
  · rename_i hb
    unfold allocateFromHeap at ha
    split at ha
    · cases ha
    · rename_i x hx
      obtain ⟨y, hy, hn⟩ := plain_of_emulated?_eq_none hx (emulated?_of_backend?_eq_none hb)
      exact absurd hn (h.2.emulated r y hy)

/-- As long as blocks are enqueued, released and used with care, no block is handed out or given
back while it is in use: an asynchronous allocation on a stream hands out a block that only pending
operations of that stream access, which are started before whatever is enqueued there later; a
synchronous allocation hands out a block that no pending operation accesses; and no pending operation
accesses a block when it is given back to the system. -/
theorem hazard_free {env : Environment} {cs : List Call} {m : Machine}
    (hm : m = (start env).run cs) (ho : (start env).Obeys Careful cs) :
    (∀ r k b m', m.allocateAsync r k = (.ok b, m') →
      (∀ s, s ≠ k.stream → usedOn s b m'.trace = false) ∧
        ∀ ds now, m'.trace <:+ now → now <:+ ((m.call (.allocateAsync r k)).run ds).trace →
          InOrder k.stream m'.trace now) ∧
      (∀ r bytes alignment b m', m.allocate r bytes alignment = (.ok b, m') →
        ∀ s, usedOn s b m'.trace = false) ∧
        ∀ later b l earlier, m.trace = later ++ .returned b l :: earlier →
          ∀ s, usedOn s b earlier = false := by
  have hsecured : m.Secured [] [] := by
    rw [hm]
    exact custody_secured.run ho (Secured.start env)
  have hrecalls : m.Recalls [] := by
    rw [hm]
    exact (recalls_start env).run cs
  refine ⟨?_, ?_, ?_⟩
  · intro r k b m' ha
    constructor
    · exact fun s hs => hsecured.allocateAsync ha hs
    · intro ds now hpast hnow
      exact (hrecalls.run (.allocateAsync r k :: ds)).orderly.inOrder hpast hnow k.stream
  · exact fun r bytes alignment b m' ha s => hsecured.allocate ha s
  · intro later b l earlier ht
    have hsafe := hsecured.2.safe
    rw [ht] at hsafe
    exact hsafe.at_return

/-- A block is released while work that writes it waits on the same stream. -/
def overlap : List Call :=
  [.build (.emulated .device .standard), .allocateAsync 0 ⟨1, 8, 8⟩, .enqueue 1 [.write 0 7 8 0],
    .releaseAsync 0 ⟨0, 0, 8, 8⟩ 1]

theorem careful_overlap : (start {}).Obeys Careful overlap := by
  refine ⟨⟨.device, {}, rfl⟩, trivial, ⟨rfl, ?_⟩, ⟨rfl, by decide, ?_⟩, trivial⟩
  · intro b hb
    have hb' : 0 = b := by
      simpa [Operation.accesses, Act.accesses] using hb
    subst hb'
    decide
  · intro t ht
    have hne : ¬ 1 = t := fun e => ht e.symm
    have hnone : enqueuedOn t [.enqueued 1 [.write 0 7 8 0], .lent ⟨0, 0, 8, 8⟩,
        .logged (.allocated 1 8), .obtained ⟨0, 0, 8, 8⟩,
        .logged (.resourceCreated .device {})] = [] := by
      simp [Event.enqueuedOn?, hne, enqueuedOn]
    unfold usedOn pendingOn
    change (List.drop _ (enqueuedOn t [.enqueued 1 [.write 0 7 8 0], .lent ⟨0, 0, 8, 8⟩,
      .logged (.allocated 1 8), .obtained ⟨0, 0, 8, 8⟩,
      .logged (.resourceCreated .device {})])).any _ = false
    rw [hnone, List.drop_nil]
    rfl

theorem hazard_free_overlap :
    ∃ m', ((start {}).run overlap).allocateAsync 0 ⟨1, 8, 8⟩ = (.ok 0, m') ∧
      usedOn 1 0 m'.trace = true ∧ ∀ s, s ≠ 1 → usedOn s 0 m'.trace = false := by
  obtain ⟨hasync, -, -⟩ := hazard_free rfl careful_overlap
  exact ⟨_, rfl, by decide, (hasync 0 ⟨1, 8, 8⟩ 0 _ rfl).1⟩

end Machine

end StreamMemory
