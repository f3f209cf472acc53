import StreamMemory.Proofs.Upkeep

/-!
# What calls keep

Calls are put together from a few moves of blocks: between the free lists, the hands of the machine
while it serves a request, the hands of callers, and the system. A property that speaks of the
blocks in hand and is kept by each move is kept by each call (`Custody.call`). Blocks that a release
pass has taken from the free lists and not yet given back are told apart from the other blocks in
hand.
-/

set_option autoImplicit false

namespace StreamMemory

/-! ## Moves of blocks -/

/-- A property of a machine, of the blocks in its hands and of the blocks that a pass has still to
give back, that every move keeps but the last one, by which a caller is handed a block. Calls that
bring something from outside need a law. With `exchange`, blocks of one resource may be given up
through another. -/
structure Handling (law : Machine → Call → Prop) (exchange : Prop)
    (I : Machine → List Parcel → List Parcel → Prop) : Prop where
  note : ∀ {m hand pass} {e : Event}, e.moves = false → e.works = false → I m hand pass →
    I (m.emit e) hand pass
  frame : ∀ {m m' : Machine} {hand pass}, m'.streams = m.streams → m'.resources = m.resources →
    m'.trace = m.trace → m'.memory.blocks.map Block.layout = m.memory.blocks.map Block.layout →
    m'.environment = m.environment → I m hand pass → I m' hand pass
  drain : ∀ {m hand pass} request s, I m hand pass → I (m.drain request s).2 hand pass
  reuse : ∀ {m hand pass r b} {e e' : Emulated} {k : BlockKey}, m.emulated? r = some e →
    e.reuse? k = some (b, e') → I m hand pass → I (m.setEmulated r e') (⟨r, k, b⟩ :: hand) pass
  refuse : ∀ {m hand pass r} {e e' : Emulated} {k : BlockKey}, m.emulated? r = some e →
    e.reserve? k.bytes = some e' →
    I m hand pass → I (m.setEmulated r (e'.unreserve k.bytes)) hand pass
  fresh : ∀ {m m' hand r heap b} {e e' : Emulated} {k : BlockKey}, m.emulated? r = some e →
    e.reserve? k.bytes = some e' → m.takeBlock r e'.heap k.bytes k.alignment = .ok (b, heap, m') →
    I m hand [] → I (m'.setEmulated r (e'.allocated heap)) (⟨r, k, b⟩ :: hand) []
  cache : ∀ {m hand pass r k b} {e : Emulated}, m.emulated? r = some e →
    I m (⟨r, k, b⟩ :: hand) pass →
    I ((m.setEmulated r (e.cache k b)).emit (.cached r k b)) hand pass
  beginPass : ∀ {m hand r} {e : Emulated}, m.emulated? r = some e → I m hand [] →
    I (m.setEmulated r e.beginPass) hand (parcels r e.free.lists)
  discard : ∀ {m hand r} {x : Resource}, law m (.drop r) → m.resource? r = some x → I m hand [] →
    I { m with resources := m.resources.set r none } hand (x.parcels r)
  /-- A pass may come to its blocks in any order. -/
  reorder : ∀ {m hand pass pass'}, pass.Perm pass' → I m hand pass → I m hand pass'
  releaseKey : ∀ {m hand r k bs lists}, I m hand (parcels r ((k, bs) :: lists)) →
    I (m.releaseKey r k bs) hand (parcels r lists)
  plainFresh : ∀ {m m' hand pass r heap b} {x : Resource} {k : BlockKey},
    m.resource? r = some x → x.emulated? = none →
    m.takeBlock r x.heap k.bytes k.alignment = .ok (b, heap, m') →
    I m hand pass → I (m'.setResource r (x.setHeap heap)) (⟨r, k, b⟩ :: hand) pass
  plainReturn : ∀ {m hand pass r} {x : Resource} {p : Parcel}, m.resource? r = some x →
    x.emulated? = none → p.resource = r ∨ exchange → I m (p :: hand) pass →
    I (m.giveBack r p.block p.key.bytes p.key.alignment) hand pass
  build : ∀ {m blueprint}, law m (.build blueprint) → I m [] [] → I (m.build blueprint) [] []
  enqueue : ∀ {m s op}, law m (.enqueue s op) → I m [] [] → I (m.enqueue s op) [] []
  releaseAsync : ∀ {m r x s}, law m (.releaseAsync r x s) → (m.backend? r).isSome = true →
    I m [] [] → Taken exchange (fun m hand => I m hand []) m r x s
  release : ∀ {m r x}, law m (.release r x) → (m.resource? r).isSome = true →
    I m [] [] → Taken exchange (fun m hand => I m hand []) m r x defaultStream

/-- A property that every move keeps. -/
structure Custody (law : Machine → Call → Prop) (exchange : Prop)
    (I : Machine → List Parcel → List Parcel → Prop) : Prop extends Handling law exchange I where
  lend : ∀ {m p hand pass}, I m (p :: hand) pass → I (m.emit (.lent p.loan)) hand pass

namespace Custody

section ReleaseKey
variable {I : Machine → List Parcel → List Parcel → Prop}

/-- The blocks of a key can be given back one at a time. -/
theorem releaseKey_of_giveBack
    (note : ∀ {m hand pass} {e : Event}, e.moves = false → e.works = false → I m hand pass →
      I (m.emit e) hand pass)
    (drain : ∀ {m hand pass} request s, I m hand pass → I (m.drain request s).2 hand pass)
    (giveBack : ∀ {m hand pass r b} {k : BlockKey}, I m hand (⟨r, k, b⟩ :: pass) →
      I (m.giveBack r b k.bytes k.alignment) hand pass)
    {m : Machine} (hand : List Parcel) {r : ResourceId} {k : BlockKey} {bs : List BlockId}
    (lists : KeyedList BlockKey (List BlockId)) (h : I m hand (parcels r ((k, bs) :: lists))) :
    I (m.releaseKey r k bs) hand (parcels r lists) := by
  have hd : I (m.synchronize k.stream).2 hand (parcels r ((k, bs) :: lists)) :=
    drain .synchronize k.stream h
  have hs : I (m.synchronizeNoThrow k.stream) hand (parcels r ((k, bs) :: lists)) := by
    rcases m.synchronizeNoThrow_eq k.stream with e | ⟨f, e⟩
    · rw [e]
      exact hd
    · rw [e]
      exact note rfl rfl hd
  unfold Machine.releaseKey
  clear h hd
  generalize m.synchronizeNoThrow k.stream = n at hs
  induction bs generalizing n with
  | nil => exact hs
  | cons b bs ih => exact ih _ (giveBack hs)

end ReleaseKey

end Custody

variable {law : Machine → Call → Prop} {exchange : Prop}
variable {I : Machine → List Parcel → List Parcel → Prop}

namespace Handling

variable (c : Handling law exchange I)
include c

theorem synchronizeNoThrow {m : Machine} {hand pass : List Parcel} (s : StreamId)
    (h : I m hand pass) : I (m.synchronizeNoThrow s) hand pass := by
  have hd : I (m.synchronize s).2 hand pass := c.drain .synchronize s h
  rcases m.synchronizeNoThrow_eq s with e | ⟨f, e⟩
  · rw [e]
    exact hd
  · rw [e]
    exact c.note rfl rfl hd

theorem releaseLists {m : Machine} {hand : List Parcel} {r : ResourceId}
    {lists : KeyedList BlockKey (List BlockId)} (h : I m hand (parcels r lists)) :
    I (m.releaseLists r lists) hand [] := by
  induction lists generalizing m with
  | nil => exact h
  | cons entry lists ih => exact ih (c.releaseKey h)

theorem releaseCached {m : Machine} {hand : List Parcel} (r : ResourceId) (h : I m hand []) :
    I (m.releaseCached r).2 hand [] := by
  unfold Machine.releaseCached
  split
  · exact h
  · rename_i e he
    have hbegun := c.beginPass he h
    exact c.note rfl rfl
      (c.releaseLists (c.reorder (parcels_perm r (m.arrange_perm e.free.lists)).symm hbegun))

theorem drop {m : Machine} {hand : List Parcel} {r : ResourceId} (hl : law m (.drop r))
    (h : I m hand []) : I (m.drop r) hand [] := by
  unfold Machine.drop
  split
  · exact h
  · rename_i x hx
    have hx' := c.discard hl hx h
    dsimp only
    split
    · rename_i hn
      cases x with
      | emulated e => cases hn
      | _ => exact hx'
    · rename_i e he
      cases x with
      | emulated e' =>
        cases he
        apply c.note rfl rfl
        apply c.releaseLists
        refine c.reorder (parcels_perm r (Machine.arrange_perm _ e.free.lists)).symm ?_
        split
        · exact hx'
        · exact c.note rfl rfl hx'
      | _ => cases he

/-- Between passes, a move with its log entry is a move and a note. -/
theorem upkeep (step : Call) : Upkeep law exchange step fun m hand => I m hand [] where
  note he hw h := c.note (Event.moves_of_idle he) hw h
  frame _ hs hr ht hl hv h := c.frame hs hr ht hl hv h
  drain request s h := c.drain request s h
  reuse _ he hu h := c.note rfl rfl (c.reuse he hu h)
  refuse _ he hr h := c.refuse he hr h
  fresh _ he hr hb h := c.note rfl rfl (c.fresh he hr hb h)
  cache he h := c.note rfl rfl (c.cache he h)
  pass _ _ h := c.releaseCached _ h
  drop hc hl h := c.drop (hc ▸ hl) h
  plainFresh _ hx hn hb h := c.plainFresh hx hn hb h
  plainReturn hx hn hq h := c.plainReturn hx hn hq h
  build hc hl h := c.build (hc ▸ hl) h
  createStream {m} _ h := by
    have hm : I { m with streamCount := m.streamCount + 1 } [] [] := by
      refine c.frame ?_ ?_ ?_ ?_ ?_ h <;> rfl
    exact c.note rfl rfl hm
  enqueue hc hl h := c.enqueue (hc ▸ hl) h
  releaseAsync hc hl hb h := c.releaseAsync (hc ▸ hl) hb h
  release hc hl hx h := c.release (hc ▸ hl) hx h

/-- The block of a request that was served is in hand. -/
abbrev Served (I : Machine → List Parcel → List Parcel → Prop) (r : ResourceId) (k : BlockKey)
    (hand : List Parcel) : Except Failure BlockId × Machine → Prop :=
  Upkeep.Served (fun m hand => I m hand []) r k hand

variable {m : Machine} {hand : List Parcel}

theorem takeReserved {r : ResourceId} {e e' : Emulated} {k : BlockKey} (he : m.emulated? r = some e)
    (hr : e.reserve? k.bytes = some e') (h : I m hand []) :
    Served I r k hand (m.takeReserved r e' k) :=
  (c.upkeep (.allocateAsync r k)).takeReserved (Call.asks_allocateAsync r k) he hr h

theorem allocateAsync (r : ResourceId) (k : BlockKey) (h : I m hand []) :
    Served I r k hand (m.allocateAsync r k) :=
  (c.upkeep (.allocateAsync r k)).allocateAsync (Call.asks_allocateAsync r k) k h

theorem allocateBackend {r : ResourceId} {backend : Backend Machine StreamId}
    (hb : m.backend? r = some backend) (k : BlockKey) (h : I m hand []) :
    Served I r k hand (backend.allocateAsync m k.bytes k.alignment k.stream) :=
  (c.upkeep (.allocateAsync r k)).allocateBackend (Call.asks_allocateAsync r k) hb k h

theorem allocate (r : ResourceId) (bytes alignment : Nat) (h : I m hand []) :
    Served I r ⟨defaultStream, bytes, alignment⟩ hand (m.allocate r bytes alignment) :=
  (c.upkeep (.allocate r bytes alignment)).allocate (Call.asks_allocate r bytes alignment)
    bytes alignment h

/-- Only an allocation hands a caller a block. -/
theorem call {step : Call} (hstep : step.allocates = false) (hl : law m step) (h : I m [] []) :
    I (m.call step) [] [] := by
  refine (c.upkeep step).call ?_ hl h
  intro n p hand hasks
  rw [Call.asks_of_not_allocates hstep] at hasks
  cases hasks

end Handling

namespace Custody

variable (c : Custody law exchange I)
include c

theorem call {m : Machine} {step : Call} (hl : law m step) (h : I m [] []) :
    I (m.call step) [] [] :=
  (c.upkeep step).call (fun _ hp => c.lend hp) hl h

theorem run {m : Machine} {cs : List Call} (ho : m.Obeys law cs) (h : I m [] []) :
    I (m.run cs) [] [] :=
  Machine.run_induction (P := fun m => I m [] []) (fun _ _ hl hm => c.call hl hm) ho h

end Custody

end StreamMemory
