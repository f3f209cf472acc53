import Mathlib.Data.List.Nodup
import StreamMemory.Proofs.Ownership
import StreamMemory.Proofs.StreamOrder

/-!
# Which blocks are used again

A block that came back to a resource waits for the next request with its key. The history tells
which blocks wait, in which order they came back, and therefore what the next request is served
with. The free lists agree with it, but for the blocks in hand (`Tracked`).
-/

set_option autoImplicit false

namespace StreamMemory

/-! ## Reading the history -/

/-- Whether a block is handed to a caller, or given back to the system. -/
def Event.takes (b : BlockId) : Event → Bool
  | lent x => x.block == b
  | returned c _ => c == b
  | _ => false

/-- A block came back to a resource under a key, and nobody has had it since. -/
def Waits (r : ResourceId) (k : BlockKey) (b : BlockId) (trace : List Event) : Prop :=
  ∃ later earlier, trace = later ++ .cached r k b :: earlier ∧ ∀ e ∈ later, e.takes b = false

/-- Of the blocks that wait under a key, this one came back last. -/
def WaitsFirst (r : ResourceId) (k : BlockKey) (b : BlockId) (trace : List Event) : Prop :=
  ∃ later earlier, trace = later ++ .cached r k b :: earlier ∧ (∀ e ∈ later, e.takes b = false) ∧
    ∀ c, Waits r k c trace → .cached r k c ∉ later

/-- The blocks that wait under a key, the one that came back last in front. -/
def waiting (r : ResourceId) (k : BlockKey) : List Event → List BlockId
  | [] => []
  | .cached q l b :: trace =>
    if q = r ∧ l = k then b :: (waiting r k trace).filter (· != b) else waiting r k trace
  | .lent x :: trace => (waiting r k trace).filter (· != x.block)
  | .returned b _ :: trace => (waiting r k trace).filter (· != b)
  | _ :: trace => waiting r k trace

section Waiting
variable {r : ResourceId} {k : BlockKey} {b : BlockId} {e : Event} {trace : List Event}

theorem waiting_cons (h : e.moves = false) : waiting r k (e :: trace) = waiting r k trace := by
  cases e <;> first | rfl | cases h

theorem waits_cons_iff :
    Waits r k b (e :: trace) ↔ e = .cached r k b ∨ Waits r k b trace ∧ e.takes b = false := by
  constructor
  · rintro ⟨later, earlier, ht, hlater⟩
    cases later with
    | nil => exact .inl (List.cons.inj ht).1
    | cons f later =>
      obtain ⟨rfl, ht'⟩ := List.cons.inj ht
      rw [List.forall_mem_cons] at hlater
      exact .inr ⟨⟨later, earlier, ht', hlater.2⟩, hlater.1⟩
  · rintro (rfl | ⟨⟨later, earlier, rfl, hlater⟩, he⟩)
    · exact ⟨[], trace, rfl, by simp⟩
    · exact ⟨e :: later, earlier, rfl, List.forall_mem_cons.mpr ⟨he, hlater⟩⟩

theorem mem_waiting_iff : b ∈ waiting r k trace ↔ Waits r k b trace := by
  induction trace with
  | nil =>
    constructor
    · intro h
      cases h
    · rintro ⟨later, earlier, ht, -⟩
      cases later <;> cases ht
  | cons e trace ih =>
    rw [waits_cons_iff, ← ih]
    cases e with
    | cached q l c =>
      by_cases hq : q = r ∧ l = k
      · by_cases hc : b = c
        · simp [waiting, hq, hc]
        · have hc' : ¬ c = b := fun h => hc h.symm
          simp [waiting, hq, hc, hc', Event.takes]
      · have hne : ¬ (q = r ∧ l = k ∧ c = b) := fun h => hq ⟨h.1, h.2.1⟩
        simp [waiting, hq, hne, Event.takes]
    | lent x =>
      rw [waiting, List.mem_filter, bne_iff_ne, Event.takes, beq_eq_false_iff_ne]
      simp [ne_comm]
    | returned c l =>
      rw [waiting, List.mem_filter, bne_iff_ne, Event.takes, beq_eq_false_iff_ne]
      simp [ne_comm]
    | _ => simp [waiting, Event.takes]

/-- Of blocks in this order, the ones behind came back before the first one did. -/
def CameBack (r : ResourceId) (k : BlockKey) (b : BlockId) (back : List BlockId)
    (trace : List Event) : Prop :=
  ∃ later earlier, trace = later ++ .cached r k b :: earlier ∧ (∀ e ∈ later, e.takes b = false) ∧
    ∀ c ∈ b :: back, .cached r k c ∉ later

theorem CameBack.cons {back : List BlockId} (h : CameBack r k b back trace)
    (he : e.takes b = false) (hback : ∀ c ∈ b :: back, e ≠ .cached r k c) :
    CameBack r k b back (e :: trace) := by
  obtain ⟨later, earlier, rfl, hlater, hall⟩ := h
  refine ⟨e :: later, earlier, rfl, List.forall_mem_cons.mpr ⟨he, hlater⟩, ?_⟩
  intro c hc hmem
  rcases List.mem_cons.mp hmem with hce | hmem
  · exact hback c hc hce.symm
  · exact hall c hc hmem

theorem cameBack_of_sublist {back : List BlockId}
    (h : (b :: back).Sublist (waiting r k trace)) : CameBack r k b back trace := by
  induction trace with
  | nil => cases h
  | cons e trace ih =>
    cases e with
    | cached q l c =>
      by_cases hq : q = r ∧ l = k
      · obtain ⟨rfl, rfl⟩ := hq
        rw [waiting, if_pos ⟨rfl, rfl⟩] at h
        rcases List.sublist_cons_iff.mp h with h | ⟨back', hb, -⟩
        · apply (ih (h.trans List.filter_sublist)).cons rfl
          intro d hd hce
          cases hce
          simpa using (List.mem_filter.mp (h.subset hd)).2
        · obtain ⟨rfl, rfl⟩ := List.cons.inj hb
          exact ⟨[], trace, rfl, by simp, by simp⟩
      · rw [waiting, if_neg hq] at h
        apply (ih h).cons rfl
        intro d _ hce
        cases hce
        exact hq ⟨rfl, rfl⟩
    | lent x =>
      rw [waiting] at h
      have hb := (List.mem_filter.mp (h.subset List.mem_cons_self)).2
      apply (ih (h.trans List.filter_sublist)).cons
      · rw [Event.takes, beq_eq_false_iff_ne]
        exact (bne_iff_ne.mp hb).symm
      · exact fun _ _ hce => by cases hce
    | returned c l =>
      rw [waiting] at h
      have hb := (List.mem_filter.mp (h.subset List.mem_cons_self)).2
      apply (ih (h.trans List.filter_sublist)).cons
      · rw [Event.takes, beq_eq_false_iff_ne]
        exact (bne_iff_ne.mp hb).symm
      · exact fun _ _ hce => by cases hce
    | _ => exact (ih h).cons rfl fun _ _ hce => by cases hce

theorem waitsFirst_of_waiting_eq {back : List BlockId} (h : waiting r k trace = b :: back) :
    WaitsFirst r k b trace := by
  have hsub : (b :: back).Sublist (waiting r k trace) := by rw [h]
  obtain ⟨later, earlier, ht, hlater, hall⟩ := cameBack_of_sublist hsub
  refine ⟨later, earlier, ht, hlater, fun c hc => hall c ?_⟩
  rw [← h]
  exact mem_waiting_iff.mpr hc

theorem nodup_waiting (r : ResourceId) (k : BlockKey) (trace : List Event) :
    (waiting r k trace).Nodup := by
  induction trace with
  | nil => exact List.nodup_nil
  | cons e trace ih =>
    cases e with
    | cached q l c =>
      rw [waiting]
      split
      · apply List.nodup_cons.mpr
        constructor
        · intro hc
          simpa using (List.mem_filter.mp hc).2
        · exact ih.filter _
      · exact ih
    | lent x => exact ih.filter _
    | returned c l => exact ih.filter _
    | _ => exact ih

end Waiting

/-! ## The free lists -/

theorem mem_parcels_of_mem_blocks {f : FreeLists} {k : BlockKey} {b : BlockId}
    (h : b ∈ f.blocks k) (r : ResourceId) : (⟨r, k, b⟩ : Parcel) ∈ parcels r f.lists := by
  unfold FreeLists.blocks at h
  cases hk : f.lists.get? k with
  | none => simp [hk] at h
  | some bs =>
    rw [hk] at h
    exact List.mem_flatMap.mpr ⟨(k, bs), KeyedList.mem_of_get? hk, List.mem_map_of_mem h⟩

theorem Owned.nodup_places {m : Machine} {hand : List Parcel} (h : Owned m hand) :
    ((m.cached ++ hand).map Parcel.block).Nodup := by
  obtain ⟨hnodup, -⟩ := h.nodup
  unfold Machine.holdings at hnodup
  rw [List.map_append, List.map_map] at hnodup
  obtain ⟨hheld, -, -⟩ := List.nodup_append.mp hnodup
  obtain ⟨-, hplaces, -⟩ := List.nodup_append.mp hheld
  exact hplaces

/-- Blocks in different places are different. -/
theorem Owned.eq_of_block {m : Machine} {hand : List Parcel} (h : Owned m hand) {p q : Parcel}
    (hp : p ∈ m.cached ++ hand) (hq : q ∈ m.cached ++ hand) (hb : p.block = q.block) : p = q :=
  List.inj_on_of_nodup_map h.nodup_places hp hq hb

/-- No block is in hand twice. -/
theorem Owned.notMem_hand {m : Machine} {p : Parcel} {hand : List Parcel}
    (h : Owned m (p :: hand)) : p.block ∉ hand.map Parcel.block := by
  have hnodup := h.nodup_places
  rw [List.map_append, List.map_cons] at hnodup
  exact (List.nodup_cons.mp (List.nodup_append.mp hnodup).2.1).1

/-- The blocks that wait and are not in hand. -/
def Machine.resting (m : Machine) (hand : List Parcel) (r : ResourceId) (k : BlockKey) :
    List BlockId :=
  (waiting r k m.trace).filter fun b => b ∉ hand.map Parcel.block

section Resting
variable {m : Machine} {hand hand' : List Parcel} {p : Parcel} {r : ResourceId} {k : BlockKey}

theorem Machine.resting_append (m : Machine) (hand pass : List Parcel) (r : ResourceId)
    (k : BlockKey) : m.resting (hand ++ pass) r k =
      (m.resting hand r k).filter fun b => b ∉ pass.map Parcel.block := by
  unfold resting
  rw [List.filter_filter]
  apply List.filter_congr
  intro b _
  simp only [List.map_append, List.mem_append, not_or, Bool.decide_and, Bool.and_comm]

theorem Machine.resting_cons (m : Machine) (p : Parcel) (hand : List Parcel) (r : ResourceId)
    (k : BlockKey) : m.resting (p :: hand) r k = (m.resting hand r k).filter (· != p.block) := by
  unfold resting
  rw [List.filter_filter]
  apply List.filter_congr
  intro b _
  simp [bne, beq_eq_decide]

theorem Machine.resting_cons_of_notMem (h : p.block ∉ waiting r k m.trace) :
    m.resting (p :: hand) r k = m.resting hand r k := by
  rw [resting_cons, List.filter_eq_self]
  intro b hb
  rw [bne_iff_ne]
  rintro rfl
  exact h (List.mem_filter.mp hb).1

end Resting

/-- The free lists hold what waits and is not in hand, and whatever waits is in its place. -/
structure Filed (m : Machine) (hand : List Parcel) : Prop where
  placed : ∀ r k, ∀ b ∈ waiting r k m.trace, (⟨r, k, b⟩ : Parcel) ∈ m.cached ++ hand
  listed : ∀ r e, m.emulated? r = some e → ∀ k, e.free.blocks k = m.resting hand r k

namespace Filed

variable {m m' : Machine} {hand hand' : List Parcel} {r : ResourceId} {k : BlockKey} {b : BlockId}
variable {p : Parcel} {e e' : Emulated}

theorem start (env : Environment) : Filed (Machine.start env) [] := by
  constructor
  · intro r k b hb
    cases hb
  · intro r e he
    simp [Machine.start, Machine.emulated?, Machine.resource?] at he

/-- A block that waits does so in one place. -/
theorem eq_of_mem (h : Filed m hand) (ho : Owned m hand) (hp : p ∈ m.cached ++ hand)
    (hb : p.block ∈ waiting r k m.trace) : p = ⟨r, k, p.block⟩ :=
  ho.eq_of_block hp (h.placed r k p.block hb) rfl

theorem mem_cached (he : m.emulated? r = some e) (hb : b ∈ e.free.blocks k) :
    (⟨r, k, b⟩ : Parcel) ∈ m.cached :=
  Machine.mem_cached.mpr ⟨e, he, mem_parcels_of_mem_blocks hb r⟩

theorem note (h : Filed m hand) {e : Event} (he : e.moves = false) : Filed (m.emit e) hand := by
  constructor
  · intro r k b hb
    rw [show (m.emit e).trace = e :: m.trace from rfl, waiting_cons he] at hb
    exact h.placed r k b hb
  · intro r f hf k
    unfold Machine.resting
    rw [show (m.emit e).trace = e :: m.trace from rfl, waiting_cons he]
    exact h.listed r f hf k

theorem congr (h : Filed m hand) (hr : m'.resources = m.resources) (ht : m'.trace = m.trace)
    (hp : hand'.Perm hand) : Filed m' hand' := by
  constructor
  · intro r k b hb
    rw [ht] at hb
    unfold Machine.cached
    rw [hr]
    exact (hp.append_left _).mem_iff.mpr (h.placed r k b hb)
  · intro r f hf k
    rw [Machine.emulated?_congr hr] at hf
    rw [h.listed r f hf k]
    unfold Machine.resting
    rw [ht]
    apply List.filter_congr
    intro b _
    exact decide_eq_decide.mpr (not_congr (hp.map Parcel.block).mem_iff.symm)

/-- A block that waits nowhere gets into the hands of the machine. -/
theorem take (h : Filed m hand) (hp : ∀ r k, p.block ∉ waiting r k m.trace) :
    Filed m (p :: hand) := by
  constructor
  · intro r k b hb
    exact List.perm_middle.mem_iff.mpr (List.mem_cons_of_mem _ (h.placed r k b hb))
  · intro r f hf k
    rw [Machine.resting_cons_of_notMem (hp r k)]
    exact h.listed r f hf k

/-- A block leaves the hands of the machine and waits no longer. -/
theorem leave (h : Filed m (p :: hand)) {e : Event}
    (he : ∀ r k, waiting r k (e :: m.trace) = (waiting r k m.trace).filter (· != p.block)) :
    Filed (m.emit e) hand := by
  constructor
  · intro r k b hb
    rw [show (m.emit e).trace = e :: m.trace from rfl, he, List.mem_filter, bne_iff_ne] at hb
    have hplaced := List.perm_middle.mem_iff.mp (h.placed r k b hb.1)
    rcases List.mem_cons.mp hplaced with hpb | hplaced
    · exact absurd (congrArg Parcel.block hpb) hb.2
    · exact hplaced
  · intro r f hf k
    rw [h.listed r f hf k, Machine.resting_cons]
    unfold Machine.resting
    rw [show (m.emit e).trace = e :: m.trace from rfl, he, List.filter_filter, List.filter_filter]
    apply List.filter_congr
    intro b _
    exact Bool.and_comm _ _

/-- A change of one resource that leaves its free lists alone. -/
theorem setResource (h : Filed m hand) {x y : Resource} (hx : m.resource? r = some x)
    (hparcels : y.parcels r = x.parcels r)
    (hfree : ∀ f, y.emulated? = some f → ∃ e, x.emulated? = some e ∧ f.free = e.free) :
    Filed (m.setResource r y) hand := by
  constructor
  · intro q k b hb
    have hcached := (Machine.cached_setResource hx hparcels).append_right hand
    exact hcached.mem_iff.mpr (h.placed q k b hb)
  · intro q f hf k
    rw [Machine.emulated?_setResource (Machine.lt_of_resource? hx)] at hf
    split at hf
    · rename_i hq
      subst hq
      obtain ⟨e, he, hsame⟩ := hfree f hf
      have hm : m.emulated? q = some e := by
        unfold Machine.emulated?
        rw [hx]
        exact he
      rw [hsame]
      exact h.listed q e hm k
    · exact h.listed q f hf k

theorem setHeap (h : Filed m hand) {x : Resource} (hx : m.resource? r = some x) (heap : Heap) :
    Filed (m.setResource r (x.setHeap heap)) hand := by
  apply h.setResource hx
  · cases x <;> rfl
  · intro f hf
    cases x with
    | emulated e =>
      cases hf
      exact ⟨e, rfl, rfl⟩
    | _ => cases hf

theorem setEmulated (h : Filed m hand) (he : m.emulated? r = some e) (hfree : e'.free = e.free) :
    Filed (m.setEmulated r e') hand := by
  apply h.setResource (Machine.emulated?_eq_some.mp he)
  · exact congrArg (fun f => parcels r f.lists) hfree
  · rintro _ ⟨⟩
    exact ⟨e, rfl, hfree⟩

theorem reuse (h : Filed m hand) (ho : Owned m hand) (he : m.emulated? r = some e)
    (hu : e.reuse? k = some (b, e')) : Filed (m.setEmulated r e') (⟨r, k, b⟩ :: hand) := by
  have hperm := (parcels_reuse r hand (ho.sound r e he) hu).2
  obtain ⟨⟨b', g⟩, hpop, hbe⟩ := Option.map_eq_some_iff.mp hu
  cases hbe
  have hblocks := FreeLists.blocks_pop hpop
  have hfront : e.free.blocks k = b :: g.blocks k := (hblocks k).trans (if_pos rfl)
  have hb : (⟨r, k, b⟩ : Parcel) ∈ m.cached ++ hand :=
    List.mem_append_left _ (mem_cached he (hfront ▸ List.mem_cons_self))
  -- the block waited under its own key only
  have hother : ∀ q l, (q, l) ≠ (r, k) → b ∉ waiting q l m.trace := by
    intro q l hne hmem
    have heq : (⟨r, k, b⟩ : Parcel) = ⟨q, l, b⟩ := h.eq_of_mem ho hb hmem
    cases heq
    exact hne rfl
  constructor
  · intro q l c hc
    exact (Machine.cached_setEmulated he hperm).mem_iff.mpr (h.placed q l c hc)
  · intro q f hf l
    rw [Machine.emulated?_setEmulated he] at hf
    by_cases hq : (q, l) = (r, k)
    · cases hq
      rw [if_pos rfl] at hf
      cases hf
      have hnodup : (b :: g.blocks k).Nodup := by
        rw [← hfront, h.listed r e he k]
        exact (nodup_waiting r k m.trace).filter _
      have hrest : (g.blocks k).filter (· != b) = g.blocks k := by
        rw [List.filter_eq_self]
        intro c hc
        rw [bne_iff_ne]
        rintro rfl
        exact (List.nodup_cons.mp hnodup).1 hc
      rw [Machine.resting_cons]
      change g.blocks k = (m.resting hand r k).filter (· != b)
      rw [← h.listed r e he k, hfront, List.filter_cons_of_neg (by simp), hrest]
    · rw [Machine.resting_cons_of_notMem (hother q l hq)]
      split at hf
      · rename_i hqr
        subst hqr
        cases hf
        have hl : ¬ k = l := fun e => hq (e ▸ rfl)
        have hsame := hblocks l
        rw [if_neg hl] at hsame
        exact hsame.symm.trans (h.listed q e he l)
      · exact h.listed q f hf l

theorem cache (h : Filed m (⟨r, k, b⟩ :: hand)) (ho : Owned m (⟨r, k, b⟩ :: hand))
    (he : m.emulated? r = some e) :
    Filed ((m.setEmulated r (e.cache k b)).emit (.cached r k b)) hand := by
  have hb : (⟨r, k, b⟩ : Parcel) ∈ m.cached ++ ⟨r, k, b⟩ :: hand :=
    List.mem_append_right _ List.mem_cons_self
  have hcached := Machine.cached_setEmulated he (parcels_cache r hand e k b)
  have hother : ∀ q l, ¬ (r = q ∧ k = l) → b ∉ waiting q l m.trace := by
    intro q l hne hmem
    have heq : (⟨r, k, b⟩ : Parcel) = ⟨q, l, b⟩ := h.eq_of_mem ho hb hmem
    cases heq
    exact hne ⟨rfl, rfl⟩
  have hnew : ∀ q l, waiting q l (.cached r k b :: m.trace) =
      if r = q ∧ k = l then b :: (waiting q l m.trace).filter (· != b) else waiting q l m.trace :=
    fun _ _ => rfl
  constructor
  · intro q l c hc
    apply hcached.mem_iff.mpr
    change c ∈ waiting q l (.cached r k b :: m.trace) at hc
    rw [hnew] at hc
    split at hc
    · rename_i hq
      obtain ⟨rfl, rfl⟩ := hq
      rcases List.mem_cons.mp hc with rfl | hc
      · exact hb
      · exact h.placed r k c (List.mem_filter.mp hc).1
    · exact h.placed q l c hc
  · intro q f hf l
    have hf' : (m.setEmulated r (e.cache k b)).emulated? q = some f := hf
    rw [Machine.emulated?_setEmulated he] at hf'
    unfold Machine.resting
    change f.free.blocks l = (waiting q l (.cached r k b :: m.trace)).filter _
    rw [hnew]
    by_cases hq : r = q ∧ k = l
    · obtain ⟨rfl, rfl⟩ := hq
      rw [if_pos rfl] at hf'
      cases hf'
      have hpush : (e.cache k b).free.blocks k = b :: e.free.blocks k :=
        (FreeLists.blocks_push e.free k k b).trans (if_pos rfl)
      have hrest : e.free.blocks k = (m.resting hand r k).filter (· != b) := by
        rw [h.listed r e he k, Machine.resting_cons]
      have hhand : b ∉ hand.map Parcel.block := ho.notMem_hand
      rw [hpush, if_pos ⟨rfl, rfl⟩, List.filter_cons, if_pos (decide_eq_true hhand), hrest]
      unfold Machine.resting
      rw [List.filter_filter, List.filter_filter]
      apply congrArg
      apply List.filter_congr
      intro c _
      exact Bool.and_comm _ _
    · rw [if_neg hq]
      change f.free.blocks l = m.resting hand q l
      rw [← Machine.resting_cons_of_notMem (p := ⟨r, k, b⟩) (hother q l hq)]
      split at hf'
      · rename_i hqr
        subst hqr
        cases hf'
        have hl : ¬ k = l := fun e => hq ⟨rfl, e⟩
        have hpush : (e.cache k b).free.blocks l = e.free.blocks l :=
          (FreeLists.blocks_push e.free k l b).trans (if_neg hl)
        exact hpush.trans (h.listed q e he l)
      · exact h.listed q f hf' l

theorem mem_cached_of_mem_parcels {x : Resource} (hx : m.resource? r = some x)
    (hp : p ∈ x.parcels r) : p ∈ m.cached ∧ p.resource = r := by
  cases x with
  | emulated e =>
    have hr : p.resource = r := resource_of_mem_parcels hp
    refine ⟨Machine.mem_cached.mpr ⟨e, ?_, ?_⟩, hr⟩
    · rw [hr]
      exact Machine.emulated?_eq_some.mpr hx
    · rw [hr]
      exact hp
  | _ => cases hp

/-- If all blocks of a resource are taken in hand, the other free lists are not concerned. -/
theorem resting_append_parcels (h : Filed m hand) (ho : Owned m hand) {x : Resource}
    (hx : m.resource? r = some x) {q : ResourceId} (hq : q ≠ r) (hf : m.emulated? q = some e)
    (k : BlockKey) : e.free.blocks k = m.resting (hand ++ x.parcels r) q k := by
  rw [Machine.resting_append, ← h.listed q e hf k]
  symm
  rw [List.filter_eq_self]
  intro b hb
  apply decide_eq_true
  intro hmem
  obtain ⟨p, hp, rfl⟩ := List.mem_map.mp hmem
  obtain ⟨hcached, hr⟩ := mem_cached_of_mem_parcels hx hp
  have hsame : p = ⟨q, k, p.block⟩ :=
    ho.eq_of_block (List.mem_append_left _ hcached) (List.mem_append_left _ (mem_cached hf hb)) rfl
  apply hq
  rw [← hr]
  exact (congrArg Parcel.resource hsame).symm

theorem beginPass (h : Filed m hand) (ho : Owned m hand) (he : m.emulated? r = some e) :
    Filed (m.setEmulated r e.beginPass) (hand ++ parcels r e.free.lists) := by
  have hx := Machine.emulated?_eq_some.mp he
  constructor
  · intro q k b hb
    have hperm := parcels_beginPass r hand e
    rw [List.append_nil] at hperm
    exact (Machine.cached_setEmulated he hperm).mem_iff.mpr (h.placed q k b hb)
  · intro q f hf k
    rw [Machine.emulated?_setEmulated he] at hf
    split at hf
    · rename_i hq
      subst hq
      cases hf
      change [] = m.resting (hand ++ parcels q e.free.lists) q k
      rw [Machine.resting_append, ← h.listed q e he k]
      symm
      rw [List.filter_eq_nil_iff]
      intro b hb hmem
      apply of_decide_eq_true hmem
      exact List.mem_map_of_mem (mem_parcels_of_mem_blocks hb q)
    · rename_i hq
      exact h.resting_append_parcels ho hx hq hf k

theorem discard (h : Filed m hand) (ho : Owned m hand) {x : Resource}
    (hx : m.resource? r = some x) :
    Filed { m with resources := m.resources.set r none } (hand ++ x.parcels r) := by
  constructor
  · intro q k b hb
    have hperm := (Machine.cached_discard hx hand).mem_iff.mpr (h.placed q k b hb)
    rcases List.mem_append.mp hperm with hmem | hmem
    · exact List.mem_append_left _ hmem
    · exact List.mem_append_right _ (List.perm_append_comm.mem_iff.mp hmem)
  · intro q f hf k
    obtain ⟨hq, hf'⟩ := Machine.emulated?_of_discard hf
    exact h.resting_append_parcels ho hx (Ne.symm hq) hf' k

/-- Nothing waits for a resource that is only now created. -/
theorem create (h : Filed m []) {x : Resource} (hx : x.parcels m.resources.length = [])
    (hfree : ∀ e, x.emulated? = some e → e.free = {}) : Filed (m.create x).2 [] := by
  have hcached : (m.create x).2.cached = m.cached := by
    unfold Machine.cached Machine.create
    rw [shelves_append, hx, List.append_nil]
  constructor
  · intro q k b hb
    rw [hcached]
    exact h.placed q k b hb
  · intro q f hf k
    rw [Machine.emulated?_create] at hf
    change f.free.blocks k = m.resting [] q k
    split at hf
    · rename_i hq
      have hnone : waiting q k m.trace = [] := by
        rw [List.eq_nil_iff_forall_not_mem]
        intro b hb
        have hplaced := h.placed q k b hb
        rw [List.append_nil, Machine.mem_cached] at hplaced
        obtain ⟨e, he, -⟩ := hplaced
        have hlt := Machine.lt_of_resource? (Machine.emulated?_eq_some.mp he)
        exact Nat.lt_irrefl _ (hq ▸ hlt)
      unfold Machine.resting
      rw [hfree f hf, hnone]
      rfl
    · exact h.listed q f hf k

theorem giveBack (h : Filed m (p :: hand)) (r : ResourceId) :
    Filed (m.giveBack r p.block p.key.bytes p.key.alignment) hand := by
  have hback : Filed (m.emit (.returned p.block (Heap.layout p.key.bytes p.key.alignment))) hand :=
    h.leave fun _ _ => rfl
  rcases m.giveBack_eq r p.block p.key.bytes p.key.alignment with ⟨-, e⟩ | ⟨x, hx, e⟩
  · rw [e]
    exact hback
  · rw [e]
    exact hback.setHeap hx _

theorem takeBlock (h : Filed m hand) (ho : Owned m hand) {heap heap' : Heap}
    (hb : m.takeBlock r heap k.bytes k.alignment = .ok (b, heap', m')) :
    Filed m' (⟨r, k, b⟩ :: hand) := by
  have hnew : ∀ q l, b ∉ waiting q l m.trace := by
    intro q l hmem
    have hlt := ho.lt_of_mem (h.placed q l b hmem)
    rw [(Machine.takeBlock_eq_ok hb).1] at hlt
    exact Nat.lt_irrefl _ hlt
  obtain ⟨-, -, rfl⟩ := Machine.takeBlock_eq_ok hb
  have htaken : Filed m (⟨r, k, b⟩ :: hand) := h.take hnew
  exact ⟨htaken.placed, htaken.listed⟩

/-- A block on loan waits nowhere. -/
theorem takeUp (h : Filed m hand) (ho : Owned m hand) (hp : p.loan ∈ onLoan m.trace) :
    Filed (m.emit (.released p.loan)) (p :: hand) := by
  have hout : ∀ q l, p.block ∉ waiting q l m.trace := by
    intro q l hmem
    exact (ho.apart (List.mem_map_of_mem hp)).2.1 _ (h.placed q l p.block hmem) rfl
  have htaken : Filed m (p :: hand) := h.take hout
  exact ⟨htaken.placed, htaken.listed⟩

end Filed

/-! ## Runs -/

namespace Machine

/-- The books and the free lists are right as long as callers and operations give up what is on
loan. -/
def Tracked (m : Machine) (hand pass : List Parcel) : Prop :=
  FairReleases m.trace → Owned m (hand ++ pass) ∧ Filed m (hand ++ pass)

variable {m : Machine} {hand pass : List Parcel} {r : ResourceId} {k : BlockKey} {b : BlockId}

theorem Tracked.audited (h : m.Tracked hand pass) : m.Audited hand pass := fun hf => (h hf).1

theorem Audited.tracked (h : m.Audited hand pass)
    (hfiled : FairReleases m.trace → Filed m (hand ++ pass)) : m.Tracked hand pass :=
  fun hf => ⟨h hf, hfiled hf⟩

theorem Tracked.congr {m' : Machine} (h : m.Tracked hand pass) (hr : m'.resources = m.resources)
    (ht : m'.trace = m.trace)
    (hl : m'.memory.blocks.map Block.layout = m.memory.blocks.map Block.layout) :
    m'.Tracked hand pass :=
  (h.audited.congr hr ht hl).tracked fun hf => (h (ht ▸ hf)).2.congr hr ht (List.Perm.refl _)

theorem Tracked.note (h : m.Tracked hand pass) {e : Event} (he : e.moves = false) :
    (m.emit e).Tracked hand pass :=
  (h.audited.note he).tracked fun hf => (h hf.tail).2.note he

theorem Tracked.giveUp (h : m.Tracked hand pass) (p : Parcel) :
    (m.emit (.released p.loan)).Tracked (p :: hand) pass :=
  (h.audited.giveUp p).tracked fun hf => (h hf.2).2.takeUp (h hf.2).1 hf.1

theorem Tracked.cache {e : Emulated} (h : m.Tracked (⟨r, k, b⟩ :: hand) pass)
    (he : m.emulated? r = some e) :
    ((m.setEmulated r (e.cache k b)).emit (.cached r k b)).Tracked hand pass :=
  (h.audited.cache he).tracked fun hf => (h hf).2.cache (h hf).1 he

theorem Tracked.giveBackPass (h : m.Tracked hand (⟨r, k, b⟩ :: pass)) :
    (m.giveBack r b k.bytes k.alignment).Tracked hand pass := by
  apply h.audited.giveBackPass.tracked
  intro hf
  have hfiled := (h (fairReleases_of_giveBack hf)).2
  exact (hfiled.congr rfl rfl List.perm_middle.symm).giveBack r

theorem Tracked.drain (h : m.Tracked hand pass) (request : DrainRequest) (s : StreamId) :
    (m.drain request s).2.Tracked hand pass := by
  refine DrainStable.drain (P := fun m => m.Tracked hand pass) ⟨?_, ?_, ?_, ?_⟩ request s h
  · exact fun _ hm => hm.congr rfl rfl rfl
  · exact fun he hm => hm.note (Event.moves_of_idle he)
  · exact fun b f hm => hm.congr rfl rfl (SystemMemory.layouts_modify _ b f)
  · intro m s r b k hm
    rcases m.freeBlock_eq s r b k with hf | ⟨e, he, hf⟩
    · rw [hf]
      exact hm.note rfl
    · rw [hf]
      exact (((hm.giveUp ⟨r, k, b⟩).cache he).note rfl).note rfl

end Machine

theorem custody_tracked : Custody Machine.Accepted True Machine.Tracked where
  note he _ h := h.note he
  frame _ hr ht hl _ h := h.congr hr ht hl
  drain request s h := h.drain request s
  reuse he hu h :=
    (custody_audited.reuse he hu h.audited).tracked fun hf => (h hf).2.reuse (h hf).1 he hu
  refuse he hr h := by
    apply (custody_audited.refuse he hr h.audited).tracked
    intro hf
    obtain ⟨rfl, -⟩ := Emulated.reserve?_eq_some hr
    exact (h hf).2.setEmulated he rfl
  fresh he hr hb h := by
    apply (custody_audited.fresh he hr hb h.audited).tracked
    intro hf
    have hm := h (Machine.fairReleases_of_takeBlock hb hf)
    obtain ⟨rfl, -⟩ := Emulated.reserve?_eq_some hr
    exact (hm.2.takeBlock hm.1 hb).setEmulated ((Machine.emulated?_takeBlock hb _).trans he) rfl
  cache he h := h.cache he
  beginPass {m hand r e} he h := by
    apply (custody_audited.beginPass he h.audited).tracked
    intro hf
    have hm := h hf
    rw [List.append_nil] at hm
    exact hm.2.beginPass hm.1 he
  discard {m hand r x} _ hx h := by
    apply (custody_audited.discard trivial hx h.audited).tracked
    intro hf
    have hm := h hf
    rw [List.append_nil] at hm
    exact hm.2.discard hm.1 hx
  reorder {m hand pass pass'} hp h :=
    (custody_audited.reorder hp h.audited).tracked fun hf =>
      (h hf).2.congr rfl rfl (hp.symm.append_left hand)
  releaseKey {_ hand _ _ _ lists} h :=
    Custody.releaseKey_of_giveBack (I := Machine.Tracked) (fun he _ hn => hn.note he)
      (fun request s hn => hn.drain request s) (fun hn => hn.giveBackPass) hand lists h
  plainFresh {m m' hand pass r heap b x k} hx hn hb h := by
    apply (custody_audited.plainFresh hx hn hb h.audited).tracked
    intro hf
    have hm := h (Machine.fairReleases_of_takeBlock hb hf)
    exact (hm.2.takeBlock hm.1 hb).setHeap ((Machine.resource?_takeBlock hb r).trans hx) heap
  plainReturn {m hand pass r x p} hx hn hp h := by
    apply (custody_audited.plainReturn hx hn hp h.audited).tracked
    intro hf
    exact (h (Machine.fairReleases_of_giveBack hf)).2.giveBack r
  lend h :=
    (custody_audited.lend h.audited).tracked fun hf => (h hf).2.leave fun _ _ => rfl
  build {m blueprint} _ h := by
    apply (custody_audited.build trivial h.audited).tracked
    intro hf
    cases blueprint with
    | emulated kind config =>
      have hn := h.note (e := .logged (.resourceCreated kind config)) rfl
      apply (hn hf).2.create rfl
      rintro _ ⟨⟩
      rfl
    | _ => exact (h hf).2.create rfl fun _ he => by cases he
  enqueue {m s op} _ h := by
    have hn := h.note (e := .enqueued s op) rfl
    exact hn.congr rfl rfl rfl
  releaseAsync {m r x s} hl _ h := by
    refine ⟨x.resource, ?_, h.giveUp ⟨x.resource, ⟨s, x.bytes, x.alignment⟩, x.block⟩⟩
    exact (Machine.eq_or_plain hl).imp_right fun hr => ⟨trivial, hr⟩
  release {m r x} hl _ h := by
    refine ⟨x.resource, ?_, h.giveUp ⟨x.resource, ⟨defaultStream, x.bytes, x.alignment⟩, x.block⟩⟩
    exact (Machine.eq_or_plain hl).imp_right fun hr => ⟨trivial, hr⟩

theorem Machine.Tracked.start (env : Environment) : (Machine.start env).Tracked [] [] :=
  fun _ => ⟨Owned.start env, Filed.start env⟩

/-! ## Releases -/

namespace Machine

variable {m : Machine} {r : ResourceId} {e : Emulated}

/-- Since some moment a block came back to a resource under a key, and nobody has had it since. -/
def CameBack (past m : Machine) (r : ResourceId) (k : BlockKey) (b : BlockId) : Prop :=
  ∃ later earlier, m.trace = later ++ .cached r k b :: earlier ∧ past.trace <:+ earlier ∧
    ∀ e ∈ later, e.takes b = false

theorem CameBack.waits {m' : Machine} {k : BlockKey} {b : BlockId} (h : m.CameBack m' r k b) :
    Waits r k b m'.trace := by
  obtain ⟨later, earlier, ht, -, hlater⟩ := h
  exact ⟨later, earlier, ht, hlater⟩

theorem cameBack_cacheBlock {past : Machine} (hp : past.trace <:+ m.trace) (r : ResourceId)
    (e : Emulated) (b : BlockId) (k : BlockKey) : past.CameBack (m.cacheBlock r e b k) r k b :=
  ⟨[.logged (.freed k.stream k.bytes)], m.trace, rfl, hp, by simp [Event.takes]⟩

/-- A block that a caller or an operation releases to a resource comes back under the stream that it
is released on, wherever it was allocated. A synchronous release is one on the default stream. -/
structure TakesBack (r : ResourceId) (m : Machine) : Prop where
  releaseAsync : ∀ x s,
    m.CameBack (m.call (.releaseAsync r x s)) r ⟨s, x.bytes, x.alignment⟩ x.block
  release : ∀ x, m.CameBack (m.call (.release r x)) r ⟨defaultStream, x.bytes, x.alignment⟩ x.block
  act : ∀ s b k, m.CameBack (m.freeBlock s r b k) r k b

theorem takesBack (he : m.emulated? r = some e) : m.TakesBack r where
  releaseAsync x s := by
    rw [call_releaseAsync he]
    exact cameBack_cacheBlock (List.suffix_cons _ _) r e x.block _
  release x := by
    have hthere : ((m.emit (.released x)).emulated? r).isSome = true := Option.isSome_of_eq_some he
    have hpast : m.trace <:+ (m.emit (.released x)).trace := List.suffix_cons _ _
    obtain ⟨f, hf⟩ := Option.isSome_iff_exists.mp
      (emulated?_synchronizeNoThrow defaultStream hthere)
    have hsynchronized := (drainStable_past m.trace).synchronizeNoThrow defaultStream hpast
    rw [call_release he]
    unfold deallocateAsync
    rw [hf]
    exact cameBack_cacheBlock hsynchronized r f x.block _
  act s b k := by
    have hpast : m.trace <:+ (m.emit (.released ⟨b, r, k.bytes, k.alignment⟩)).trace :=
      List.suffix_cons _ _
    obtain ⟨later, earlier, ht, hp, hlater⟩ := cameBack_cacheBlock hpast r e b k
    unfold freeBlock
    rw [he]
    exact ⟨_ :: later, earlier, congrArg _ ht, hp, List.forall_mem_cons.mpr ⟨rfl, hlater⟩⟩

end Machine

/-! ## Requests -/

/-- A release pass reuses nothing, and takes nothing from the system. -/
theorem Machine.releaseCached_steady {m : Machine} {r : ResourceId} {reuses handedOut : Nat}
    (h : m.Has r (fun e => e.reuses = reuses) ∧ m.memory.blocks.length = handedOut)
    (q : ResourceId) :
    (m.releaseCached q).2.Has r (fun e => e.reuses = reuses) ∧
      (m.releaseCached q).2.memory.blocks.length = handedOut := by
  refine ⟨?_, (m.environment_releaseCached q).2.trans h.2⟩
  have hreuses : DrainStable fun m => m.Has r fun e => e.reuses = reuses :=
    Has.drainStable fun _ _ _ he => he
  exact hreuses.releaseCached (fun _ _ _ hm => hm.giveBack fun _ _ he => he)
    (fun _ _ hm => hm.congr rfl) (fun _ he => h.1.setEmulated he id) h.1

namespace Machine

variable {m : Machine} {r : ResourceId} {k : BlockKey} {e e' : Emulated}

/-- A request was not served from the free lists: no reuse is counted, and a block that was handed
out is new. -/
def Missed (r : ResourceId) (reuses handedOut : Nat) (o : Except Failure BlockId × Machine) : Prop :=
  o.2.Has r (fun e => e.reuses = reuses) ∧ ∀ b, o.1 = .ok b → b = handedOut

theorem missed_takeReserved (he : m.emulated? r = some e) (hr : e.reserve? k.bytes = some e') :
    Missed r e.reuses m.memory.blocks.length (m.takeReserved r e' k) := by
  obtain ⟨rfl, -⟩ := Emulated.reserve?_eq_some hr
  unfold takeReserved
  split
  · refine ⟨⟨_, emulated?_setEmulated_self he _, rfl⟩, ?_⟩
    intro b hb
    cases hb
  · rename_i b heap m' hb
    have he' := (emulated?_takeBlock hb r).trans he
    refine ⟨⟨_, emulated?_setEmulated_self he' _, rfl⟩, ?_⟩
    rintro c ⟨⟩
    exact (takeBlock_eq_ok hb).1

theorem missed_allocateAsync (he : m.emulated? r = some e) (hk : e.free.blocks k = []) :
    Missed r e.reuses m.memory.blocks.length (m.allocateAsync r k) := by
  have hmiss : ∀ f : Failure, Missed r e.reuses m.memory.blocks.length (.error f, m) := by
    intro f
    refine ⟨⟨e, he, rfl⟩, ?_⟩
    intro b hb
    cases hb
  have hnone : e.reuse? k = none := by
    rw [← Option.not_isSome_iff_eq_none, Emulated.reuse?_isSome_iff]
    exact fun h => h hk
  unfold allocateAsync
  rw [he]
  dsimp only
  split
  · rw [hnone]
    dsimp only
    split
    · rename_i hr
      exact missed_takeReserved he hr
    · split
      · unfold reclaimFor
        dsimp only
        have hlog : (m.log (.exhausted e.kind k.bytes)).Has r (fun f => f.reuses = e.reuses) ∧
            (m.log (.exhausted e.kind k.bytes)).memory.blocks.length = m.memory.blocks.length :=
          ⟨⟨e, he, rfl⟩, rfl⟩
        obtain ⟨hreuses, hlength⟩ := releaseCached_steady hlog r
        split
        · rename_i hb
          obtain ⟨f, hf, hr⟩ := Option.bind_eq_some_iff.mp hb
          have hmissed := missed_takeReserved hf hr
          rw [hreuses.of_some hf, hlength] at hmissed
          exact hmissed
        · refine ⟨hreuses, ?_⟩
          intro b hb
          cases hb
      · exact hmiss _
  · exact hmiss _

/-- A request was served with a block that waited, and nothing else happened. -/
structure Reused (m : Machine) (r : ResourceId) (k : BlockKey) (e : Emulated) (b : BlockId)
    (m' : Machine) : Prop where
  first : WaitsFirst r k b m.trace
  counted : ∃ e', m'.emulated? r = some e' ∧ e'.reuses = e.reuses + 1 ∧
    e'.allocations = e.allocations
  streams : m'.streams = m.streams
  memory : m'.memory = m.memory
  trace : m'.trace = .logged (.reused k.stream k.bytes) :: m.trace

end Machine

namespace Filed

variable {m : Machine} {r : ResourceId} {k : BlockKey} {e : Emulated}

/-- With nothing in hand, the free lists are what waits. -/
theorem blocks_eq (h : Filed m []) (he : m.emulated? r = some e) (k : BlockKey) :
    e.free.blocks k = waiting r k m.trace := by
  rw [h.listed r e he k, Machine.resting, List.filter_eq_self]
  exact fun _ _ => rfl

theorem reused (h : Filed m []) (he : m.emulated? r = some e)
    (hs : e.supports k.alignment = true) (hk : e.free.blocks k ≠ []) :
    ∃ b m', m.allocateAsync r k = (.ok b, m') ∧ (⟨r, k, b⟩ : Parcel) ∈ m.cached ∧
      m.Reused r k e b m' := by
  obtain ⟨⟨b, e'⟩, hu⟩ := Option.isSome_iff_exists.mp ((e.reuse?_isSome_iff k).mpr hk)
  obtain ⟨⟨b', g⟩, hpop, hbe⟩ := Option.map_eq_some_iff.mp hu
  cases hbe
  have hfront : e.free.blocks k = b :: g.blocks k := (FreeLists.blocks_pop hpop k).trans (if_pos rfl)
  have hwaiting : waiting r k m.trace = b :: g.blocks k := by
    rw [← hfront, h.blocks_eq he]
  have hserved : m.allocateAsync r k = (.ok b, (m.setEmulated r { e with
      free := g
      live := e.live.add k.bytes
      reuses := e.reuses + 1 }).log (.reused k.stream k.bytes)) := by
    unfold Machine.allocateAsync
    rw [he]
    dsimp only
    rw [if_pos hs, hu]
  refine ⟨b, _, hserved, mem_cached he (hfront ▸ List.mem_cons_self),
    waitsFirst_of_waiting_eq hwaiting, ?_, rfl, rfl, rfl⟩
  exact ⟨_, (Machine.emulated?_setEmulated he _ r).trans (if_pos rfl), rfl, rfl⟩

/-- A block that is handed out was cached for just this request, or is new. -/
theorem of_allocateAsync (h : Filed m []) {b : BlockId} {m' : Machine}
    (ha : m.allocateAsync r k = (.ok b, m')) :
    (⟨r, k, b⟩ : Parcel) ∈ m.cached ∨ b = m.memory.blocks.length := by
  cases he : m.emulated? r with
  | none =>
    unfold Machine.allocateAsync at ha
    rw [he] at ha
    cases ha
  | some e =>
    by_cases hs : e.supports k.alignment = true
    · by_cases hk : e.free.blocks k = []
      · right
        apply (Machine.missed_allocateAsync he hk).2
        rw [ha]
      · left
        obtain ⟨c, m₁, ha', hc, -⟩ := h.reused he hs hk
        rw [ha] at ha'
        cases ha'
        exact hc
    · unfold Machine.allocateAsync at ha
      rw [he] at ha
      dsimp only at ha
      rw [if_neg hs] at ha
      cases ha

end Filed

namespace Machine

/-- What an asynchronous request is served with, whatever happened before. It gets a block from the
cache just if one waits under its key, and then the one that came back last; it runs nothing, and
asks for no room. A block that waits is handed out for no other key. Whoever releases a block, it
waits under the stream that it is released on. -/
theorem reuse_run {env : Environment} {cs : List Call} {m : Machine} {r : ResourceId}
    {k : BlockKey} {e : Emulated} (hm : m = (start env).run cs)
    (ho : (start env).Obeys Accepted cs) (hf : FairReleases m.trace)
    (he : m.emulated? r = some e) (hs : e.supports k.alignment = true) :
    ((∃ b, Waits r k b m.trace) ↔
        ∃ b m', m.allocateAsync r k = (.ok b, m') ∧ b ∈ (obtained m.trace).map Loan.block) ∧
      ((∃ b, Waits r k b m.trace) →
        ∃ b m', m.allocateAsync r k = (.ok b, m') ∧ m.Reused r k e b m') ∧
      ((¬ ∃ b, Waits r k b m.trace) →
        ∃ e', (m.allocateAsync r k).2.emulated? r = some e' ∧ e'.reuses = e.reuses) ∧
      (∀ b q l m', Waits r k b m.trace → m.allocateAsync q l = (.ok b, m') → q = r ∧ l = k) ∧
      m.TakesBack r := by
  obtain ⟨howned, hfiled⟩ : Owned m [] ∧ Filed m [] := by
    rw [hm] at hf ⊢
    exact custody_tracked.run ho (Tracked.start env) hf
  have hwaits : (∃ b, Waits r k b m.trace) ↔ e.free.blocks k ≠ [] := by
    rw [hfiled.blocks_eq he]
    constructor
    · rintro ⟨b, hb⟩
      exact List.ne_nil_of_mem (mem_waiting_iff.mpr hb)
    · intro hne
      obtain ⟨b, hb⟩ := List.exists_mem_of_ne_nil _ hne
      exact ⟨b, mem_waiting_iff.mp hb⟩
  have hnumbered : ∀ b, b ∈ (obtained m.trace).map Loan.block ↔ b < m.memory.blocks.length := by
    intro b
    rw [howned.numbered, List.mem_reverse, List.mem_range]
  refine ⟨⟨?_, ?_⟩, ?_, ?_, ?_, takesBack he⟩
  · intro hb
    obtain ⟨b, m', ha, hc, -⟩ := hfiled.reused he hs (hwaits.mp hb)
    exact ⟨b, m', ha, (hnumbered b).mpr (howned.lt_of_mem (List.mem_append_left _ hc))⟩
  · rintro ⟨b, m', ha, hb⟩
    apply hwaits.mpr
    intro hk
    have hnew : b = m.memory.blocks.length := (missed_allocateAsync he hk).2 b (by rw [ha])
    exact Nat.lt_irrefl _ (hnew ▸ (hnumbered b).mp hb)
  · intro hb
    obtain ⟨b, m', ha, -, hreused⟩ := hfiled.reused he hs (hwaits.mp hb)
    exact ⟨b, m', ha, hreused⟩
  · intro hb
    have hk : e.free.blocks k = [] := by
      apply Classical.not_not.mp
      exact fun hne => hb (hwaits.mpr hne)
    exact (missed_allocateAsync he hk).1
  · intro b q l m' hb ha
    have hplaced := hfiled.placed r k b (mem_waiting_iff.mpr hb)
    rcases hfiled.of_allocateAsync ha with hc | hnew
    · have hsame : (⟨q, l, b⟩ : Parcel) = ⟨r, k, b⟩ :=
        howned.eq_of_block (List.mem_append_left _ hc) hplaced rfl
      cases hsame
      exact ⟨rfl, rfl⟩
    · have hlt := howned.lt_of_mem hplaced
      exact absurd hlt (hnew ▸ Nat.lt_irrefl _)

/-- Two blocks are released on one stream, though one of them was allocated on another. -/
def recycled : Machine :=
  (start {}).run [.build (.emulated .device .standard), .allocateAsync 0 ⟨1, 8, 8⟩,
    .allocateAsync 0 ⟨2, 8, 8⟩, .releaseAsync 0 ⟨0, 0, 8, 8⟩ 1, .releaseAsync 0 ⟨1, 0, 8, 8⟩ 1,
    .destroy 1]

theorem reuse_recycled :
    ∃ e, recycled.emulated? 0 = some e ∧ (∃ b, Waits 0 ⟨1, 8, 8⟩ b recycled.trace) ∧
      (∃ b m', recycled.allocateAsync 0 ⟨1, 8, 8⟩ = (.ok b, m') ∧
        recycled.Reused 0 ⟨1, 8, 8⟩ e b m') ∧
      (recycled.allocateAsync 0 ⟨1, 8, 8⟩).1 = .ok 1 ∧
      (recycled.allocateAsync 0 ⟨2, 8, 8⟩).1 = .ok 2 := by
  have he : recycled.emulated? 0 = some {
      kind := .device
      heap := ⟨⟨16, 16⟩, 2⟩
      free := ⟨[(⟨1, 8, 8⟩, [1, 0])], 16⟩
      live := ⟨0, 16⟩
      allocations := 2 } := by
    decide
  have hwaits : ∃ b, Waits 0 ⟨1, 8, 8⟩ b recycled.trace :=
    ⟨1, mem_waiting_iff.mp (by decide)⟩
  obtain ⟨-, hreused, -⟩ := reuse_run (r := 0) (k := ⟨1, 8, 8⟩) rfl (by decide) (by decide) he rfl
  exact ⟨_, he, hwaits, hreused hwaits, by decide, by decide⟩

end Machine

end StreamMemory
