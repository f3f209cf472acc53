import StreamMemory.Proofs.Custody

/-!
# Who has each block

Every block that was ever had from the system is on loan, or in one free list, or was given back,
and it is one of these only. The ledger that says so counts the blocks in hand as well while a
request is served. It is kept as long as callers give up what they have, once, and through a
resource that takes it.
-/

set_option autoImplicit false

namespace StreamMemory

def Loan.layout (x : Loan) : Layout := Heap.layout x.bytes x.alignment

/-! ## Cached blocks -/

def shelf (r : ResourceId) (x : Option Resource) : List Parcel :=
  (x.map (Resource.parcels r)).getD []

def shelves (resources : List (Option Resource)) : List Parcel :=
  (List.range resources.length).flatMap fun r => shelf r resources[r]?.join

/-- The blocks in all free lists of a machine. -/
def Machine.cached (m : Machine) : List Parcel := shelves m.resources

/-- What stands on the shelves of the other resources does not depend on one of them. -/
theorem shelves_set (resources : List (Option Resource)) {r : ResourceId}
    (hr : r < resources.length) :
    ∃ rest, ∀ x, (shelves (resources.set r x)).Perm (shelf r x ++ rest) := by
  obtain ⟨front, back, hrange⟩ := List.append_of_mem (List.mem_range.mpr hr)
  have hnodup : (front ++ r :: back).Nodup := hrange ▸ List.nodup_range
  rw [List.nodup_append, List.nodup_cons] at hnodup
  obtain ⟨-, ⟨hback, -⟩, hfront⟩ := hnodup
  refine ⟨(front ++ back).flatMap fun q => shelf q resources[q]?.join, fun x => ?_⟩
  have hother : ∀ qs : List ResourceId, (∀ q ∈ qs, q ≠ r) →
      (qs.flatMap fun q => shelf q (resources.set r x)[q]?.join) =
        qs.flatMap fun q => shelf q resources[q]?.join := by
    intro qs hqs
    apply congrArg List.flatten
    apply List.map_congr_left
    intro q hq
    rw [List.getElem?_set_ne (hqs q hq).symm]
  unfold shelves
  rw [List.length_set, hrange, List.flatMap_append, List.flatMap_cons, List.flatMap_append,
    hother front fun q hq => hfront q hq r List.mem_cons_self,
    hother back fun q hq e => hback (e ▸ hq), List.getElem?_set_self hr]
  exact List.perm_append_comm_assoc _ _ _

theorem shelves_append (resources : List (Option Resource)) (x : Resource) :
    shelves (resources ++ [some x]) = shelves resources ++ x.parcels resources.length := by
  have hold : ((List.range resources.length).flatMap fun q =>
      shelf q (resources ++ [some x])[q]?.join) = shelves resources := by
    apply congrArg List.flatten
    apply List.map_congr_left
    intro q hq
    rw [List.getElem?_append_left (List.mem_range.mp hq)]
  unfold shelves at hold ⊢
  rw [List.length_append, List.length_singleton, List.range_succ, List.flatMap_append, hold]
  simp [shelf]

namespace Machine

variable {m : Machine} {r : ResourceId}

theorem cached_split {x : Resource} (hx : m.resource? r = some x) :
    ∃ rest, m.cached.Perm (x.parcels r ++ rest) ∧
      (∀ y, (m.setResource r y).cached.Perm (y.parcels r ++ rest)) ∧
        (shelves (m.resources.set r none)).Perm rest := by
  have hr := lt_of_resource? hx
  obtain ⟨rest, hrest⟩ := shelves_set m.resources hr
  refine ⟨rest, ?_, fun y => hrest (some y), hrest none⟩
  have hself : m.resources.set r (some x) = m.resources := by
    unfold resource? at hx
    rw [Option.join_eq_some_iff, List.getElem?_eq_some_iff] at hx
    obtain ⟨_, hx⟩ := hx
    rw [← hx]
    exact List.set_getElem_self hr
  have h := hrest (some x)
  rw [hself] at h
  exact h

theorem cached_setResource {x y : Resource} (hx : m.resource? r = some x)
    (hxy : y.parcels r = x.parcels r) : (m.setResource r y).cached.Perm m.cached := by
  obtain ⟨rest, hm, hset, -⟩ := cached_split hx
  exact (hset y).trans (hxy ▸ hm.symm)

/-- The free lists of a resource and the hands exchange blocks. -/
theorem cached_setEmulated {e e' : Emulated} (he : m.emulated? r = some e)
    {hand hand' : List Parcel}
    (hp : (parcels r e'.free.lists ++ hand').Perm (parcels r e.free.lists ++ hand)) :
    ((m.setEmulated r e').cached ++ hand').Perm (m.cached ++ hand) := by
  obtain ⟨rest, hm, hset, -⟩ := cached_split (emulated?_eq_some.mp he)
  have hset' : (m.setEmulated r e').cached.Perm (parcels r e'.free.lists ++ rest) :=
    hset (.emulated e')
  have hm' : m.cached.Perm (parcels r e.free.lists ++ rest) := hm
  rw [List.perm_iff_count] at hp hm' hset' ⊢
  intro q
  have hq := hp q
  have hmq := hm' q
  have hsetq := hset' q
  simp only [List.count_append] at hq hmq hsetq ⊢
  omega

theorem cached_discard {x : Resource} (hx : m.resource? r = some x) (hand : List Parcel) :
    (shelves (m.resources.set r none) ++ (x.parcels r ++ hand)).Perm (m.cached ++ hand) := by
  obtain ⟨rest, hm, -, hnone⟩ := cached_split hx
  have hrest := hnone.append_right (x.parcels r ++ hand)
  have hall := hm.append_right hand
  rw [List.append_assoc] at hall
  exact hrest.trans ((List.perm_append_comm_assoc _ _ _).trans hall.symm)

theorem mem_cached {p : Parcel} :
    p ∈ m.cached ↔ ∃ e, m.emulated? p.resource = some e ∧ p ∈ parcels p.resource e.free.lists := by
  unfold cached shelves
  rw [List.mem_flatMap]
  constructor
  · rintro ⟨q, -, hp⟩
    unfold shelf at hp
    cases hx : m.resources[q]?.join with
    | none => simp [hx] at hp
    | some x =>
      rw [hx] at hp
      cases x with
      | emulated e =>
        obtain rfl : p.resource = q := resource_of_mem_parcels hp
        exact ⟨e, emulated?_eq_some.mpr hx, hp⟩
      | _ => cases hp
  · rintro ⟨e, he, hp⟩
    have hx := emulated?_eq_some.mp he
    refine ⟨p.resource, List.mem_range.mpr (lt_of_resource? hx), ?_⟩
    unfold resource? at hx
    rw [hx]
    exact hp

end Machine

/-! ## Exchanges with free lists -/

section Exchanges
variable (r : ResourceId) (hand : List Parcel) {e : Emulated}

theorem parcels_reuse (h : e.free.Sound) {e' : Emulated} {k : BlockKey} {b : BlockId}
    (hu : e.reuse? k = some (b, e')) : e'.free.Sound ∧
      (parcels r e'.free.lists ++ ⟨r, k, b⟩ :: hand).Perm (parcels r e.free.lists ++ hand) := by
  obtain ⟨⟨b', g⟩, hpop, hbe⟩ := Option.map_eq_some_iff.mp hu
  cases hbe
  refine ⟨h.pop hpop, ?_⟩
  exact List.perm_middle.trans ((FreeLists.parcels_pop h hpop r).append_right hand).symm

theorem parcels_cache (e : Emulated) (k : BlockKey) (b : BlockId) :
    (parcels r (e.cache k b).free.lists ++ hand).Perm
      (parcels r e.free.lists ++ ⟨r, k, b⟩ :: hand) :=
  ((e.free.parcels_push k b r).append_right hand).trans List.perm_middle.symm

theorem parcels_beginPass (e : Emulated) :
    (parcels r e.beginPass.free.lists ++ (hand ++ parcels r e.free.lists)).Perm
      (parcels r e.free.lists ++ (hand ++ [])) := by
  rw [List.append_nil]
  change (hand ++ parcels r e.free.lists).Perm (parcels r e.free.lists ++ hand)
  exact List.perm_append_comm

end Exchanges

/-! ## The ledger -/

/-- Blocks that were not given back, of a machine with some blocks in its hands. -/
def Machine.holdings (m : Machine) (hand : List Parcel) : List Loan :=
  onLoan m.trace ++ (m.cached ++ hand).map Parcel.loan

theorem Machine.holdings_cons (m : Machine) (p : Parcel) (hand : List Parcel) :
    (m.holdings (p :: hand)).Perm (p.loan :: m.holdings hand) := by
  have hp : (m.cached ++ p :: hand).Perm (p :: (m.cached ++ hand)) := List.perm_middle
  exact ((hp.map Parcel.loan).append_left _).trans List.perm_middle

/-- The books of a machine with some blocks in its hands. -/
structure Owned (m : Machine) (hand : List Parcel) : Prop where
  sound : ∀ r e, m.emulated? r = some e → e.free.Sound
  ledger : ∃ gone : List Loan, returned m.trace = gone.map (fun x => (x.block, x.layout)) ∧
    (m.holdings hand ++ gone).Perm (obtained m.trace)
  numbered : (obtained m.trace).map Loan.block = (List.range m.memory.blocks.length).reverse
  layouts : m.memory.blocks.map Block.layout = ((obtained m.trace).map Loan.layout).reverse
  fresh : FreshLoans m.trace

namespace Owned

variable {m m' : Machine} {hand hand' : List Parcel} {r : ResourceId} {p : Parcel}

theorem start (env : Environment) : Owned (Machine.start env) [] := by
  refine ⟨?_, ⟨[], rfl, List.Perm.refl _⟩, rfl, rfl, trivial⟩
  intro r e he
  simp [Machine.start, Machine.emulated?, Machine.resource?] at he

theorem move (h : Owned m hand) (ht : m'.trace = m.trace)
    (hl : m'.memory.blocks.map Block.layout = m.memory.blocks.map Block.layout)
    (hs : ∀ r e, m'.emulated? r = some e → e.free.Sound)
    (hp : (m'.cached ++ hand').Perm (m.cached ++ hand)) : Owned m' hand' := by
  have hlen := congrArg List.length hl
  rw [List.length_map, List.length_map] at hlen
  obtain ⟨gone, hgone, hledger⟩ := h.ledger
  refine ⟨hs, ⟨gone, by rw [ht, hgone], ?_⟩, by rw [ht, hlen, h.numbered], by rw [ht, hl, h.layouts],
    by rw [ht]; exact h.fresh⟩
  rw [ht]
  apply List.Perm.trans (List.Perm.append_right gone ?_) hledger
  unfold Machine.holdings
  rw [ht]
  exact (hp.map Parcel.loan).append_left _

theorem perm (h : Owned m hand) (hp : hand'.Perm hand) : Owned m hand' :=
  h.move rfl rfl h.sound (hp.append_left m.cached)

theorem note (h : Owned m hand) {e : Event} (he : e.moves = false) : Owned (m.emit e) hand := by
  have ho : obtained (m.emit e).trace = obtained m.trace := obtained_cons m.trace he
  obtain ⟨gone, hgone, hledger⟩ := h.ledger
  refine ⟨h.sound, ⟨gone, (returned_cons m.trace he).trans hgone, ?_⟩, ?_, ?_,
    (freshLoans_cons m.trace he).mpr h.fresh⟩
  · rw [ho]
    unfold Machine.holdings at hledger ⊢
    rw [show onLoan (m.emit e).trace = onLoan m.trace from onLoan_cons m.trace he]
    exact hledger
  · rw [ho]
    exact h.numbered
  · rw [ho]
    exact h.layouts

theorem setEmulated (h : Owned m hand) {e e' : Emulated} (he : m.emulated? r = some e)
    (hs : e'.free.Sound)
    (hp : (parcels r e'.free.lists ++ hand').Perm (parcels r e.free.lists ++ hand)) :
    Owned (m.setEmulated r e') hand' := by
  refine h.move rfl rfl ?_ (Machine.cached_setEmulated he hp)
  intro q f hf
  rw [Machine.emulated?_setEmulated he] at hf
  split at hf
  · cases hf
    exact hs
  · exact h.sound q f hf

theorem setHeap (h : Owned m hand) {x : Resource} (hx : m.resource? r = some x) (heap : Heap) :
    Owned (m.setResource r (x.setHeap heap)) hand := by
  refine h.move rfl rfl ?_ ((Machine.cached_setResource hx ?_).append_right hand)
  · intro q f hf
    rw [Machine.emulated?_setResource (Machine.lt_of_resource? hx)] at hf
    split at hf
    · cases x with
      | emulated e =>
        cases hf
        exact h.sound r e (Machine.emulated?_eq_some.mpr hx)
      | _ => cases hf
    · exact h.sound q f hf
  · cases x <;> rfl

theorem takeBlock (h : Owned m hand) {heap heap' : Heap} {k : BlockKey} {b : BlockId}
    (hb : m.takeBlock r heap k.bytes k.alignment = .ok (b, heap', m')) :
    Owned m' (⟨r, k, b⟩ :: hand) := by
  obtain ⟨rfl, -, rfl⟩ := Machine.takeBlock_eq_ok hb
  obtain ⟨gone, hgone, hledger⟩ := h.ledger
  refine ⟨h.sound, ⟨gone, hgone, ?_⟩, ?_, ?_, h.fresh⟩
  · have hcons := Machine.holdings_cons m ⟨r, k, m.memory.blocks.length⟩ hand
    exact (hcons.append_right gone).trans (hledger.cons _)
  · rw [List.length_append, List.length_singleton, List.range_succ, List.reverse_append,
      ← h.numbered]
    rfl
  · rw [List.map_append, h.layouts]
    exact (List.reverse_cons ..).symm

theorem giveBack (h : Owned m (p :: hand)) (r : ResourceId) :
    Owned (m.giveBack r p.block p.key.bytes p.key.alignment) hand := by
  have hback : Owned (m.emit (.returned p.block (Heap.layout p.key.bytes p.key.alignment))) hand := by
    obtain ⟨gone, hgone, hledger⟩ := h.ledger
    refine ⟨h.sound, ⟨p.loan :: gone, ?_, ?_⟩, h.numbered, h.layouts, h.fresh⟩
    · rw [List.map_cons, ← hgone]
      rfl
    · have hcons := (m.holdings_cons p hand).append_right gone
      exact List.perm_middle.trans (hcons.symm.trans hledger)
  rcases m.giveBack_eq r p.block p.key.bytes p.key.alignment with ⟨-, e⟩ | ⟨x, hx, e⟩
  · rw [e]
    exact hback
  · rw [e]
    exact hback.setHeap hx _

/-- No block has two holders, and no block that was given back has one. -/
theorem nodup (h : Owned m hand) :
    ((m.holdings hand).map Loan.block ++ (returned m.trace).map Prod.fst).Nodup ∧
      ((m.holdings hand).map Loan.block ++ (returned m.trace).map Prod.fst).Perm
        (List.range m.memory.blocks.length) := by
  obtain ⟨gone, hgone, hledger⟩ := h.ledger
  have hperm := hledger.map Loan.block
  rw [List.map_append, h.numbered] at hperm
  have hblocks : (returned m.trace).map Prod.fst = gone.map Loan.block := by
    rw [hgone, List.map_map]
    rfl
  rw [hblocks]
  have hall := hperm.trans (List.reverse_perm _)
  exact ⟨hall.nodup_iff.mpr List.nodup_range, hall⟩

/-- A block on loan is in no free list, not in hand, and was not given back. -/
theorem apart (h : Owned m hand) {b : BlockId} (hb : b ∈ (onLoan m.trace).map Loan.block) :
    b < m.memory.blocks.length ∧ (∀ q ∈ m.cached ++ hand, q.block ≠ b) ∧
      ∀ y ∈ returned m.trace, y.1 ≠ b := by
  obtain ⟨hnodup, hperm⟩ := h.nodup
  unfold Machine.holdings at hnodup hperm
  rw [List.map_append, List.map_map] at hnodup hperm
  obtain ⟨hheld, -, hgone⟩ := List.nodup_append.mp hnodup
  obtain ⟨-, -, hcached⟩ := List.nodup_append.mp hheld
  refine ⟨?_, ?_, ?_⟩
  · have hmem := hperm.mem_iff.mp (List.mem_append_left _ (List.mem_append_left _ hb))
    exact List.mem_range.mp hmem
  · intro q hq
    exact (hcached b hb q.block (List.mem_map_of_mem hq)).symm
  · intro y hy
    exact (hgone b (List.mem_append_left _ hb) y.1 (List.mem_map_of_mem hy)).symm

theorem lt_of_mem (h : Owned m hand) {q : Parcel} (hq : q ∈ m.cached ++ hand) :
    q.block < m.memory.blocks.length := by
  obtain ⟨-, hperm⟩ := h.nodup
  apply List.mem_range.mp
  apply hperm.mem_iff.mp
  apply List.mem_append_left
  unfold Machine.holdings
  rw [List.map_append, List.map_map]
  exact List.mem_append_right _ (List.mem_map_of_mem hq)

theorem lend (h : Owned m (p :: hand)) : Owned (m.emit (.lent p.loan)) hand := by
  have hnew : p.block ∉ (onLoan m.trace).map Loan.block := by
    intro hmem
    exact (h.apart hmem).2.1 p (List.mem_append_right _ List.mem_cons_self) rfl
  obtain ⟨gone, hgone, hledger⟩ := h.ledger
  refine ⟨h.sound, ⟨gone, hgone, ?_⟩, h.numbered, h.layouts, ⟨hnew, h.fresh⟩⟩
  have hcons := (m.holdings_cons p hand).append_right gone
  exact hcons.symm.trans hledger

theorem takeUp (h : Owned m hand) (hx : p.loan ∈ onLoan m.trace) :
    Owned (m.emit (.released p.loan)) (p :: hand) := by
  obtain ⟨gone, hgone, hledger⟩ := h.ledger
  refine ⟨h.sound, ⟨gone, hgone, ?_⟩, h.numbered, h.layouts, h.fresh⟩
  apply List.Perm.trans (List.Perm.append_right gone ?_) hledger
  apply (Machine.holdings_cons _ p hand).trans
  have herase := (List.perm_cons_erase hx).append_right ((m.cached ++ hand).map Parcel.loan)
  exact herase.symm

theorem discard (h : Owned m hand) {x : Resource} (hx : m.resource? r = some x) :
    Owned { m with resources := m.resources.set r none } (x.parcels r ++ hand) :=
  h.move rfl rfl (fun q e he => h.sound q e (Machine.emulated?_of_discard he).2)
    (Machine.cached_discard hx hand)

theorem build (h : Owned m hand) (x : Resource) (hx : x.parcels m.resources.length = [])
    (hs : ∀ e, x.emulated? = some e → e.free.Sound) : Owned (m.create x).2 hand := by
  refine h.move rfl rfl ?_ ?_
  · intro q e he
    rw [Machine.emulated?_create] at he
    split at he
    · exact hs e he
    · exact h.sound q e he
  · unfold Machine.cached Machine.create
    rw [shelves_append, hx, List.append_nil]

end Owned

/-! ## Runs -/

namespace Machine

/-- Callers release a block only through a resource that takes it. -/
def Accepted (m : Machine) : Call → Prop
  | .releaseAsync r x _ | .release r x => m.accepts r x.resource = true
  | _ => True

instance decidableAccepted (m : Machine) : (c : Call) → Decidable (m.Accepted c)
  | .releaseAsync r x _ | .release r x => instDecidableEqBool (m.accepts r x.resource) true
  | .build _ | .createStream | .enqueue .. | .synchronize _ | .synchronizeNoThrow _ | .destroy _
  | .allocateAsync .. | .allocate .. | .releaseCached _ | .drop _ | .write .. | .copy ..
  | .failSynchronizeAfter _ | .synchronizeRecorded _ => .isTrue trivial

/-- The books are right as long as callers and operations give up what is on loan. -/
def Audited (m : Machine) (hand pass : List Parcel) : Prop :=
  FairReleases m.trace → Owned m (hand ++ pass)

variable {m : Machine} {hand pass : List Parcel}

theorem Audited.congr {m' : Machine} (h : m.Audited hand pass) (hr : m'.resources = m.resources)
    (ht : m'.trace = m.trace)
    (hl : m'.memory.blocks.map Block.layout = m.memory.blocks.map Block.layout) :
    m'.Audited hand pass := by
  intro hf
  have ho := h (ht ▸ hf)
  apply ho.move ht hl
  · intro r e he
    rw [emulated?_congr hr] at he
    exact ho.sound r e he
  · unfold cached
    rw [hr]

theorem Audited.note (h : m.Audited hand pass) {e : Event} (he : e.moves = false) :
    (m.emit e).Audited hand pass :=
  fun hf => (h hf.tail).note he

theorem Audited.reorder {pass' : List Parcel} (h : m.Audited hand pass) (hp : pass.Perm pass') :
    m.Audited hand pass' :=
  fun hf => (h hf).perm (hp.symm.append_left hand)

theorem Audited.giveUp (h : m.Audited hand pass) (p : Parcel) :
    (m.emit (.released p.loan)).Audited (p :: hand) pass :=
  fun hf => (h hf.2).takeUp hf.1

theorem Audited.giveBack {p : Parcel} (h : m.Audited (p :: hand) pass) (r : ResourceId) :
    (m.giveBack r p.block p.key.bytes p.key.alignment).Audited hand pass := by
  intro hf
  exact (h (fairReleases_of_giveBack hf)).giveBack r

theorem Audited.giveBackPass {r : ResourceId} {k : BlockKey} {b : BlockId}
    (h : m.Audited hand (⟨r, k, b⟩ :: pass)) :
    (m.giveBack r b k.bytes k.alignment).Audited hand pass := by
  have hfront : m.Audited (⟨r, k, b⟩ :: hand) pass := by
    intro hf
    exact (h hf).perm List.perm_middle.symm
  exact hfront.giveBack r

/-- A resource that takes a block of another resource has no free lists. -/
theorem eq_or_plain {r owner : ResourceId} (h : m.accepts r owner = true) :
    owner = r ∨ m.emulated? r = none := by
  cases he : m.emulated? r with
  | none => exact .inr rfl
  | some e => exact .inl (eq_of_accepts he h).symm

theorem Audited.cache {r : ResourceId} {k : BlockKey} {b : BlockId} {e : Emulated}
    (h : m.Audited (⟨r, k, b⟩ :: hand) pass) (he : m.emulated? r = some e) :
    ((m.setEmulated r (e.cache k b)).emit (.cached r k b)).Audited hand pass := by
  intro hf
  have ho := h hf
  have hsound := ho.sound r e he
  have hset := ho.setEmulated he (hsound.push k b) (parcels_cache r (hand ++ pass) e k b)
  exact ⟨hset.sound, hset.ledger, hset.numbered, hset.layouts, hset.fresh⟩

end Machine

theorem drainStable_audited (hand pass : List Parcel) :
    DrainStable fun m => m.Audited hand pass where
  streams _ h := h.congr rfl rfl rfl
  emit he h := h.note (Event.moves_of_idle he)
  contents b f h := h.congr rfl rfl (SystemMemory.layouts_modify _ b f)
  free {m} s r b k h := by
    rcases m.freeBlock_eq s r b k with hf | ⟨e, he, hf⟩
    · rw [hf]
      exact h.note rfl
    · rw [hf]
      exact (((h.giveUp ⟨r, k, b⟩).cache he).note rfl).note rfl

theorem custody_audited : Custody Machine.Accepted True Machine.Audited where
  note he _ h := h.note he
  frame _ hr ht hl _ h := h.congr hr ht hl
  drain {m hand pass} request s h := (drainStable_audited hand pass).drain request s h
  reuse {m hand pass r b e e' k} he hu h := by
    intro hf
    have ho := h hf
    obtain ⟨hsound, hperm⟩ := parcels_reuse r (hand ++ pass) (ho.sound r e he) hu
    exact ho.setEmulated he hsound hperm
  refuse {m hand pass r e e' k} he hr h := by
    intro hf
    obtain ⟨rfl, -⟩ := Emulated.reserve?_eq_some hr
    exact (h hf).setEmulated he ((h hf).sound r e he) (List.Perm.refl _)
  fresh {m m' hand r heap b e e' k} he hr hb h := by
    intro hf
    obtain ⟨rfl, -⟩ := Emulated.reserve?_eq_some hr
    have ho := h (Machine.fairReleases_of_takeBlock hb hf)
    have he' := (Machine.emulated?_takeBlock hb r).trans he
    exact (ho.takeBlock hb).setEmulated he' (ho.sound r e he) (List.Perm.refl _)
  cache he h := h.cache he
  beginPass {m hand r e} he h := by
    intro hf
    exact (h hf).setEmulated he FreeLists.Sound.empty (parcels_beginPass r hand e)
  discard _ hx h := by
    intro hf
    exact ((h hf).discard hx).perm (by rw [List.append_nil]; exact List.perm_append_comm)
  reorder hp h := h.reorder hp
  releaseKey {_ hand _ _ _ lists} h :=
    Custody.releaseKey_of_giveBack (I := Machine.Audited) (fun he _ hn => hn.note he)
      (fun {_ hand pass} request s hn => (drainStable_audited hand pass).drain request s hn)
      (fun hn => hn.giveBackPass) hand lists h
  plainFresh {m m' hand pass r heap b x k} hx hn hb h := by
    intro hf
    have ho := h (Machine.fairReleases_of_takeBlock hb hf)
    exact (ho.takeBlock hb).setHeap ((Machine.resource?_takeBlock hb r).trans hx) heap
  plainReturn {m hand pass r x p} _ _ _ h := h.giveBack r
  lend h := fun hf => (h hf).lend
  build {m blueprint} _ h := by
    cases blueprint with
    | emulated kind config =>
      have hn := h.note (e := .logged (.resourceCreated kind config)) rfl
      intro hf
      apply (hn hf).build _ rfl
      rintro _ ⟨⟩
      exact FreeLists.Sound.empty
    | _ => exact fun hf => (h hf).build _ rfl (fun _ he => by cases he)
  enqueue {m s op} _ h := by
    have he : (m.emit (.enqueued s op)).Audited [] [] := h.note rfl
    exact he.congr rfl rfl rfl
  releaseAsync {m r x s} hl _ h := by
    refine ⟨x.resource, ?_, h.giveUp ⟨x.resource, ⟨s, x.bytes, x.alignment⟩, x.block⟩⟩
    exact (Machine.eq_or_plain hl).imp_right fun hr => ⟨trivial, hr⟩
  release {m r x} hl _ h := by
    refine ⟨x.resource, ?_, h.giveUp ⟨x.resource, ⟨defaultStream, x.bytes, x.alignment⟩, x.block⟩⟩
    exact (Machine.eq_or_plain hl).imp_right fun hr => ⟨trivial, hr⟩

/-- Every block of the system memory is in one place, and is known there as it was obtained. -/
structure Machine.Partitioned (m : Machine) : Prop where
  /-- On loan, in a free list, or given back: each block once. -/
  places : ((onLoan m.trace).map Loan.block ++ m.cached.map Parcel.block ++
    (returned m.trace).map Prod.fst).Perm (List.range m.memory.blocks.length)
  numbered : (obtained m.trace).map Loan.block = (List.range m.memory.blocks.length).reverse
  lent : ∀ x ∈ onLoan m.trace, x ∈ obtained m.trace
  keyed : ∀ p ∈ m.cached, p.loan ∈ obtained m.trace
  layouts : ∀ y ∈ returned m.trace, ∃ x ∈ obtained m.trace, y = (x.block, x.layout)
  /-- At no time in the past was a block handed out that was on loan. -/
  fresh : FreshLoans m.trace
  dropped : ∀ x ∈ obtained m.trace, m.resource? x.resource = none →
    x ∈ onLoan m.trace ∨ (x.block, x.layout) ∈ returned m.trace

theorem Owned.partitioned {m : Machine} (h : Owned m []) : m.Partitioned := by
  obtain ⟨gone, hgone, hledger⟩ := h.ledger
  unfold Machine.holdings at hledger
  rw [List.append_nil] at hledger
  have hmem : ∀ x, x ∈ obtained m.trace ↔
      (x ∈ onLoan m.trace ∨ x ∈ m.cached.map Parcel.loan) ∨ x ∈ gone := by
    intro x
    rw [← hledger.mem_iff, List.mem_append, List.mem_append]
  refine ⟨?_, h.numbered, fun x hx => (hmem x).mpr (.inl (.inl hx)),
    fun p hp => (hmem p.loan).mpr (.inl (.inr (List.mem_map_of_mem hp))), ?_, h.fresh, ?_⟩
  · have hall := h.nodup.2
    unfold Machine.holdings at hall
    rw [List.append_nil, List.map_append, List.map_map] at hall
    exact hall
  · intro y hy
    rw [hgone] at hy
    obtain ⟨x, hx, rfl⟩ := List.mem_map.mp hy
    exact ⟨x, (hmem x).mpr (.inr hx), rfl⟩
  · intro x hx hnone
    rcases (hmem x).mp hx with (hx | hx) | hx
    · exact .inl hx
    · obtain ⟨p, hp, rfl⟩ := List.mem_map.mp hx
      obtain ⟨e, he, -⟩ := Machine.mem_cached.mp hp
      rw [Machine.emulated?_eq_some] at he
      exact absurd (hnone.symm.trans he) (by simp)
    · right
      rw [hgone]
      exact List.mem_map.mpr ⟨x, hx, rfl⟩

namespace Machine

/-- Whatever the resources are, and in whatever order they are used: as long as every block is given
up once, as it was handed out, and through a resource that takes it, each block obtained from the
system is on loan, or in one free list under its own key, or was given back with its own layout. -/
theorem partitioned_run {env : Environment} {cs : List Call}
    (ho : (start env).Obeys Accepted cs)
    (hf : FairReleases ((start env).run cs).trace) : ((start env).run cs).Partitioned :=
  (custody_audited.run ho (fun _ => Owned.start env) hf).partitioned

/-- A host resource, and a backend that takes blocks from it: one block is on loan, one is cached,
and one was given back through the backend. -/
def exchange : List Call :=
  [.build (.emulated .host .standard), .build .lenient, .allocateAsync 0 ⟨1, 8, 8⟩,
    .allocateAsync 0 ⟨1, 8, 8⟩, .allocate 1 16 8, .release 1 ⟨0, 0, 8, 8⟩,
    .releaseAsync 0 ⟨1, 0, 8, 8⟩ 1]

theorem partitioned_exchange :
    onLoan ((start {}).run exchange).trace = [⟨2, 1, 16, 8⟩] ∧
      ((start {}).run exchange).cached = [⟨0, ⟨1, 8, 8⟩, 1⟩] ∧
      returned ((start {}).run exchange).trace = [(0, ⟨8, 8⟩)] ∧
      ((start {}).run exchange).Partitioned :=
  ⟨by decide, by decide, by decide, partitioned_run (by decide) (by decide)⟩

end Machine

end StreamMemory
