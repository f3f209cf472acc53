import Mathlib.Data.Finset.Insert
import StreamMemory.Proofs.Admission

/-!
# Postings to the accounts of a family

Some resources ask the system for every block, and give every block that comes back to the system.
A call does one of four things to the accounts of a family of them: nothing, or one member hands out
a block that it takes from the system, or it takes a block and gives it back before anyone gets it,
or a block of the family comes back through some member (`Posted`).
-/

set_option autoImplicit false

namespace StreamMemory

/-- Whether a resource keeps nothing that comes back. -/
def Blueprint.plain : Blueprint → Bool
  | .emulated .. => false
  | _ => true

/-- Whether a call names a resource, or a block of it. -/
def Call.concerns (r : ResourceId) : Call → Bool
  | .allocateAsync q _ | .allocate q .. | .drop q => q == r
  | .releaseAsync q x _ | .release q x => q == r || x.resource == r
  | _ => false

theorem Call.asks_of_not_concerns {c : Call} {r : ResourceId} (h : c.concerns r = false) :
    c.asks r = false := by
  cases c <;> first | rfl | exact h

/-- What a heap accounts for once a block was taken from the system. -/
def Heap.take (h : Heap) (bytes : Nat) : Heap := ⟨h.allocated.add bytes, h.count + 1⟩

theorem Resource.setHeap_setHeap (x : Resource) (h h' : Heap) :
    (x.setHeap h).setHeap h' = x.setHeap h' := by
  cases x <;> rfl

/-! ## Moves of blocks in a trace -/

/-- The events of a trace that move blocks. -/
def moved (trace : List Event) : List Event := trace.filter Event.moves

theorem onLoan_moved (trace : List Event) : onLoan (moved trace) = onLoan trace := by
  induction trace with
  | nil => rfl
  | cons e trace ih =>
    cases e with
    | lent x => exact congrArg (x :: ·) ih
    | released x => exact congrArg (·.erase x) ih
    | _ => exact ih

theorem fairReleases_moved (trace : List Event) :
    FairReleases (moved trace) ↔ FairReleases trace := by
  induction trace with
  | nil => exact Iff.rfl
  | cons e trace ih =>
    cases e with
    | released x => exact and_congr (iff_of_eq (congrArg (x ∈ ·) (onLoan_moved trace))) ih
    | _ => exact ih

theorem lents_moved (trace : List Event) : lents (moved trace) = lents trace := by
  induction trace with
  | nil => rfl
  | cons e trace ih =>
    cases e with
    | lent x => exact congrArg (x :: ·) ih
    | _ => exact ih

theorem obtained_moved (trace : List Event) : obtained (moved trace) = obtained trace := by
  induction trace with
  | nil => rfl
  | cons e trace ih =>
    cases e with
    | obtained x => exact congrArg (x :: ·) ih
    | _ => exact ih

namespace Machine

/-- What a resource has taken from the system. A resource that is not there has taken nothing. -/
def account (m : Machine) (r : ResourceId) : Heap := ((m.resource? r).map Resource.heap).getD {}

/-- How many blocks callers were ever handed by a resource. -/
def served (m : Machine) (r : ResourceId) : Nat := (lents m.trace).countP fun x => x.resource = r

/-- The blocks that were ever taken from the system for a resource. -/
def taken (m : Machine) (r : ResourceId) : List Loan :=
  (obtained m.trace).filter fun x => x.resource = r

/-- The bytes of the blocks of a resource that callers have. -/
def outstanding (m : Machine) (r : ResourceId) : Nat := total (Loan.share r) (onLoan m.trace)

/-- The members of a family keep nothing and stay, and blocks of the family, and no others, are
released through its members, through whichever of them. -/
def Circulates (family : Finset ResourceId) (m : Machine) : Call → Prop
  | .build blueprint => m.resources.length ∈ family → blueprint.plain = true
  | .releaseAsync q x _ | .release q x => q ∈ family ↔ x.resource ∈ family
  | .drop q => q ∉ family
  | _ => True

instance decidableCirculates (family : Finset ResourceId) (m : Machine) :
    (c : Call) → Decidable (m.Circulates family c)
  | .build blueprint =>
    inferInstanceAs (Decidable (m.resources.length ∈ family → blueprint.plain = true))
  | .releaseAsync q x _ | .release q x =>
    inferInstanceAs (Decidable (q ∈ family ↔ x.resource ∈ family))
  | .drop q => inferInstanceAs (Decidable (q ∉ family))
  | .createStream | .enqueue .. | .synchronize _ | .synchronizeNoThrow _ | .destroy _
  | .allocateAsync .. | .allocate .. | .releaseCached _ | .write .. | .copy ..
  | .failSynchronizeAfter _ | .synchronizeRecorded _ => .isTrue trivial

variable {m m' past : Machine} {hand : List Parcel} {q r : ResourceId} {c : Call}
variable {family : Finset ResourceId} {x : Loan}

/-! ## Looking accounts up -/

theorem account_of_some {x : Resource} (h : m.resource? r = some x) : m.account r = x.heap := by
  unfold account
  rw [h]
  rfl

theorem account_congr (h : m'.resource? r = m.resource? r) : m'.account r = m.account r := by
  unfold account
  rw [h]

theorem emulated?_eq_of_resource? (h : m'.resource? r = m.resource? r) :
    m'.emulated? r = m.emulated? r := congrArg (·.bind Resource.emulated?) h

/-- A new resource has an empty account, as it had before it was there. -/
theorem account_create (m : Machine) {x : Resource} (hx : x.heap = {}) (r : ResourceId) :
    (m.create x).2.account r = m.account r := by
  unfold account
  rw [resource?_create]
  split
  · rename_i hr
    have hnone : m.resource? r = none := by
      unfold resource?
      rw [hr, List.getElem?_eq_none (Nat.le_refl _)]
      rfl
    rw [hnone, Option.map_some, hx]
    rfl
  · rfl

theorem account_build (m : Machine) (blueprint : Blueprint) (r : ResourceId) :
    (m.build blueprint).account r = m.account r := by
  cases blueprint with
  | emulated kind config => exact account_create (m.log (.resourceCreated kind config)) rfl r
  | _ => exact account_create m rfl r

/-- What a new resource is, and that the others stay what they were. -/
theorem resource?_build (m : Machine) (blueprint : Blueprint) (r : ResourceId) :
    ∃ x, (blueprint.plain = true → x.emulated? = none) ∧
      (m.build blueprint).resource? r =
        if r = m.resources.length then some x else m.resource? r := by
  cases blueprint with
  | emulated kind config =>
    exact ⟨_, fun h => (by cases h), resource?_create (m.log (.resourceCreated kind config)) _ r⟩
  | _ => exact ⟨_, fun _ => rfl, resource?_create m _ r⟩

theorem served_congr (h : moved m'.trace = moved m.trace) (r : ResourceId) :
    m'.served r = m.served r := by
  unfold served
  rw [← lents_moved, h, lents_moved]

theorem taken_congr (h : moved m'.trace = moved m.trace) (r : ResourceId) :
    m'.taken r = m.taken r := by
  unfold taken
  rw [← obtained_moved, h, obtained_moved]

theorem outstanding_congr (h : moved m'.trace = moved m.trace) (r : ResourceId) :
    m'.outstanding r = m.outstanding r := by
  unfold outstanding
  rw [← onLoan_moved, h, onLoan_moved]

theorem fair_congr (h : moved m'.trace = moved m.trace) :
    FairReleases m'.trace ↔ FairReleases m.trace := by
  rw [← fairReleases_moved, h, fairReleases_moved]

theorem outstanding_released (hf : x ∈ onLoan m.trace) (r : ResourceId) :
    (m.emit (.released x)).outstanding r + x.share r = m.outstanding r := by
  unfold outstanding
  rw [total_perm _ (List.perm_cons_erase hf), total_cons, Nat.add_comm]
  rfl

/-! ## Resources that are left alone -/

/-- Since some moment nothing became of a resource without free lists and of its blocks that callers
have, and none of its blocks is in hand. -/
structure Unmoved (r : ResourceId) (past m : Machine) (hand : List Parcel) : Prop where
  plain : m.emulated? r = none
  direct : m.backend? r = none → past.backend? r = none
  account : m.account r = past.account r
  served : m.served r = past.served r
  taken : m.taken r = past.taken r
  outstanding : FairReleases m.trace →
    FairReleases past.trace ∧ m.outstanding r = past.outstanding r
  away : ∀ p ∈ hand, p.resource ≠ r

namespace Unmoved

theorem refl (hp : m.emulated? r = none) : Unmoved r m m [] :=
  ⟨hp, id, rfl, rfl, rfl, fun hf => ⟨hf, rfl⟩, fun _ hp => absurd hp List.not_mem_nil⟩

theorem keep (h : Unmoved r past m hand) {n : Machine} (hr : n.resource? r = m.resource? r)
    (hs : n.served r = m.served r) (ht : n.taken r = m.taken r)
    (ho : FairReleases n.trace → FairReleases m.trace ∧ n.outstanding r = m.outstanding r) :
    Unmoved r past n hand := by
  refine ⟨(emulated?_eq_of_resource? hr).trans h.plain, fun hn => ?_,
    (account_congr hr).trans h.account, hs.trans h.served, ht.trans h.taken, fun hf => ?_, h.away⟩
  · exact h.direct ((backend?_congr hr).symm.trans hn)
  · obtain ⟨hpast, hout⟩ := ho hf
    exact ⟨(h.outstanding hpast).1, hout.trans (h.outstanding hpast).2⟩

theorem congr (h : Unmoved r past m hand) {n : Machine} (hr : n.resource? r = m.resource? r)
    (ht : moved n.trace = moved m.trace) : Unmoved r past n hand :=
  h.keep hr (served_congr ht r) (taken_congr ht r) fun hf =>
    ⟨(fair_congr ht).mp hf, outstanding_congr ht r⟩

theorem note (h : Unmoved r past m hand) {e : Event} (he : e.moves = false) :
    Unmoved r past (m.emit e) hand :=
  h.congr (n := m.emit e) rfl (List.filter_cons_of_neg (by rw [he]; decide))

theorem emulated? (h : Unmoved r past m hand) {e : Emulated} (he : m.emulated? q = some e) :
    q ≠ r := by
  rintro rfl
  rw [h.plain] at he
  cases he

theorem hold (h : Unmoved r past m hand) {p : Parcel} (hp : p.resource ≠ r) :
    Unmoved r past m (p :: hand) :=
  { h with away := List.forall_mem_cons.mpr ⟨hp, h.away⟩ }

theorem letGo {p : Parcel} (h : Unmoved r past m (p :: hand)) :
    p.resource ≠ r ∧ Unmoved r past m hand :=
  ⟨(List.forall_mem_cons.mp h.away).1, { h with away := (List.forall_mem_cons.mp h.away).2 }⟩

theorem giveUp (h : Unmoved r past m hand) {x : Loan} (hx : x.resource ≠ r) :
    Unmoved r past (m.emit (.released x)) hand := by
  refine h.keep (n := m.emit (.released x)) rfl rfl rfl fun hf => ⟨hf.2, ?_⟩
  rw [← outstanding_released hf.1 r, Loan.share_of_ne hx]
  rfl

theorem lend {p : Parcel} (h : Unmoved r past m (p :: hand)) :
    Unmoved r past (m.emit (.lent p.loan)) hand := by
  obtain ⟨hp, hm⟩ := h.letGo
  refine hm.keep (n := m.emit (.lent p.loan)) rfl ?_ rfl fun hf => ⟨hf, ?_⟩
  · unfold Machine.served
    rw [show lents (m.emit (.lent p.loan)).trace = p.loan :: lents m.trace from rfl]
    refine List.countP_cons_of_neg ?_
    rw [decide_eq_true_iff]
    exact hp
  · unfold Machine.outstanding
    rw [show onLoan (m.emit (.lent p.loan)).trace = p.loan :: onLoan m.trace from rfl, total_cons,
      Loan.share_of_ne hp, Nat.zero_add]

theorem takeBlock (h : Unmoved r past m hand) (hq : q ≠ r) {heap heap' : Heap}
    {bytes alignment : Nat} {b : BlockId}
    (hb : m.takeBlock q heap bytes alignment = .ok (b, heap', m')) : Unmoved r past m' hand := by
  obtain ⟨-, -, rfl⟩ := takeBlock_eq_ok hb
  refine h.keep rfl rfl ?_ fun hf => ⟨hf, rfl⟩
  exact List.filter_cons_of_neg (by simpa using hq)

theorem setResource (h : Unmoved r past m hand) (hq : q ≠ r) (x : Resource) :
    Unmoved r past (m.setResource q x) hand :=
  h.congr (resource?_set_of_ne hq m (some x)) rfl

theorem cacheBlock (h : Unmoved r past m hand) {e : Emulated} (he : m.emulated? q = some e)
    (b : BlockId) (k : BlockKey) : Unmoved r past (m.cacheBlock q e b k) hand := by
  refine (h.setResource (h.emulated? he) (.emulated (e.cache k b))).keep
    (n := m.cacheBlock q e b k) ?_ ?_ ?_ fun hf => ⟨hf, ?_⟩ <;> rfl

theorem giveBack (h : Unmoved r past m hand) (hq : q ≠ r) (b : BlockId) (bytes alignment : Nat) :
    Unmoved r past (m.giveBack q b bytes alignment) hand := by
  have ht := m.trace_giveBack q b bytes alignment
  refine h.keep (resource?_giveBack_of_ne hq m b bytes alignment) ?_ ?_ fun hf => ?_
  · unfold Machine.served
    rw [lents_giveBack]
  · unfold Machine.taken
    rw [ht]
    rfl
  · refine ⟨fairReleases_of_giveBack hf, ?_⟩
    unfold Machine.outstanding
    rw [ht]
    rfl

theorem drainStable (r : ResourceId) (past : Machine) (hand : List Parcel) :
    DrainStable fun m => Unmoved r past m hand where
  streams _ h := h.congr rfl rfl
  emit he h := h.note (Event.moves_of_idle he)
  contents _ _ h := h.congr rfl rfl
  free {m} s q b k h := by
    rcases m.freeBlock_eq s q b k with hf | ⟨e, he, hf⟩
    · rw [hf]
      exact h.note rfl
    · have hreleased := h.giveUp (x := ⟨b, q, k.bytes, k.alignment⟩) (h.emulated? he)
      rw [hf]
      exact (hreleased.cacheBlock he b k).note rfl

theorem releaseCached (h : Unmoved r past m hand) (hq : q ≠ r) :
    Unmoved r past (m.releaseCached q).2 hand :=
  (drainStable r past hand).releaseCached
    (fun b bytes alignment hm => hm.giveBack hq b bytes alignment) (fun _ _ hm => hm.note rfl)
    (fun e _ => h.setResource hq (.emulated e.beginPass)) h

theorem drop (h : Unmoved r past m hand) (hq : q ≠ r) : Unmoved r past (m.drop q) hand :=
  (drainStable r past hand).drop
    (fun b bytes alignment hm => hm.giveBack hq b bytes alignment) (fun _ _ hm => hm.note rfl)
    (h.congr (resource?_set_of_ne hq m none) rfl) h

/-- A resource that is not there yet has nothing. -/
theorem build (h : Unmoved r past m []) {blueprint : Blueprint}
    (hnew : r = m.resources.length → blueprint.plain = true) :
    Unmoved r past (m.build blueprint) [] := by
  have hsame : moved (m.build blueprint).trace = moved m.trace := by
    cases blueprint <;> rfl
  obtain ⟨x, hx, hr⟩ := m.resource?_build blueprint r
  have haccount := account_build m blueprint r
  by_cases hlength : r = m.resources.length
  · rw [if_pos hlength] at hr
    refine ⟨?_, fun _ => h.direct ?_, haccount.trans h.account,
      (served_congr hsame r).trans h.served, (taken_congr hsame r).trans h.taken, fun hf => ?_,
      h.away⟩
    · unfold Machine.emulated?
      rw [hr]
      exact hx (hnew hlength)
    · unfold backend? resource?
      rw [hlength, List.getElem?_eq_none (Nat.le_refl _)]
      rfl
    · obtain ⟨hpast, hout⟩ := h.outstanding ((fair_congr hsame).mp hf)
      exact ⟨hpast, (outstanding_congr hsame r).trans hout⟩
  · rw [if_neg hlength] at hr
    exact h.congr hr hsame

/-- A call that names neither a resource nor a block of it leaves the resource alone. -/
theorem upkeep (past : Machine) (hr : r ∈ family) (hc : c.concerns r = false) :
    Upkeep (Circulates family) False c (Unmoved r past) where
  note he _ h := h.note (Event.moves_of_idle he)
  frame _ _ hres ht _ _ h := h.congr (resource?_congr hres _) (congrArg moved ht)
  drain request s h := (drainStable r past _).drain request s h
  reuse hasks he _ h := by
    have hq := h.emulated? he
    exact ((h.setResource hq _).note rfl).hold hq
  refuse _ he _ h := h.setResource (h.emulated? he) _
  fresh _ he _ hb h := by
    have hq := h.emulated? he
    exact (((h.takeBlock hq hb).setResource hq _).note rfl).hold hq
  cache he h := h.letGo.2.cacheBlock he _ _
  pass _ he h := h.releaseCached (h.emulated? he)
  drop hd _ h := by
    subst hd
    exact h.drop (by simpa [Call.concerns] using hc)
  plainFresh hasks _ _ hb h := by
    have hq := Call.ne_of_asks (Call.asks_of_not_concerns hc) hasks
    exact ((h.takeBlock hq hb).setResource hq _).hold hq
  plainReturn _ _ hp h := by
    obtain ⟨hne, hm⟩ := h.letGo
    rcases hp with rfl | hp
    · exact hm.giveBack hne _ _ _
    · exact hp.elim
  build hb hl h := by
    subst hb
    exact h.build fun hnew => hl (hnew ▸ hr)
  createStream {m} _ h :=
    (h.congr (n := { m with streamCount := m.streamCount + 1 }) rfl rfl).note rfl
  enqueue {m s op} _ _ h :=
    (h.congr (n := { m with streams := m.streams.enqueue s op }) rfl rfl).note rfl
  releaseAsync {_ q x _} hd _ _ h := by
    subst hd
    have hne : q ≠ r ∧ x.resource ≠ r := by simpa [Call.concerns] using hc
    exact ⟨q, .inl rfl, (h.giveUp hne.2).hold hne.1⟩
  release {_ q x} hd _ _ h := by
    subst hd
    have hne : q ≠ r ∧ x.resource ≠ r := by simpa [Call.concerns] using hc
    exact ⟨q, .inl rfl, (h.giveUp hne.2).hold hne.1⟩

theorem call (hp : m.emulated? r = none) (hr : r ∈ family) (hl : m.Circulates family c)
    (hc : c.concerns r = false) : Unmoved r m (m.call c) [] :=
  (upkeep m hr hc).call (fun _ hm => hm.lend) hl (refl hp)

end Unmoved

/-! ## Bookings -/

/-- No resource was changed, and no block was moved. -/
structure Still (m m' : Machine) : Prop where
  resources : m'.resources = m.resources
  moved : moved m'.trace = moved m.trace

/-- The heap of one resource became another one. -/
structure Rebooked (q : ResourceId) (heap : Heap) (m m' : Machine) : Prop where
  self : ∃ x, m.resource? q = some x ∧ m'.resource? q = some (x.setHeap heap)
  others : ∀ r, q ≠ r → m'.resource? r = m.resource? r

/-- A block was taken from the system on the account of its resource. -/
structure Took (x : Loan) (m m' : Machine) : Prop where
  booked : Rebooked x.resource ((m.account x.resource).take x.bytes) m m'
  moved : moved m'.trace = .obtained x :: moved m.trace

/-- A block was taken from the system and given back at once. The count of blocks and the peak keep
it. -/
structure Withdrew (x : Loan) (m m' : Machine) : Prop where
  booked : Rebooked x.resource (((m.account x.resource).take x.bytes).giveBack x.bytes) m m'
  moved : ∃ l, moved m'.trace = .returned x.block l :: .obtained x :: moved m.trace

namespace Still

theorem refl (m : Machine) : Still m m := ⟨rfl, rfl⟩

theorem trans {n : Machine} (h : Still m n) (h' : Still n m') : Still m m' :=
  ⟨h'.resources.trans h.resources, h'.moved.trans h.moved⟩

theorem note (m : Machine) {e : Event} (he : e.moves = false) : Still m (m.emit e) :=
  ⟨rfl, List.filter_cons_of_neg (by rw [he]; decide)⟩

theorem account (h : Still m m') (r : ResourceId) : m'.account r = m.account r :=
  account_congr (resource?_congr h.resources r)

theorem synchronizeRecorded {s : StreamId} {result : Except Failure Unit}
    (hs : m.synchronizeRecorded s = (result, m')) : Still m m' := by
  have hnoted := note (e := .hook (.synchronize s)) m rfl
  unfold Machine.synchronizeRecorded at hs
  dsimp only at hs
  split at hs
  · cases hs
    exact hnoted
  · cases hs
    exact hnoted
  · cases hs
    exact ⟨rfl, hnoted.moved⟩

theorem synchronizeRecordedNoThrow (m : Machine) (s : StreamId) :
    Still m (recordedStreams.synchronizeNoThrow m s) := by
  unfold Synchronizer.synchronizeNoThrow
  split
  · rename_i hs
    exact synchronizeRecorded hs
  · rename_i hs
    exact (synchronizeRecorded hs).trans (note _ rfl)

end Still

/-- A synchronization of a recorded stream that succeeds counts down to the ones that fail. -/
theorem fault_of_synchronizeRecorded_ok {s : StreamId}
    (hs : m.synchronizeRecorded s = (.ok (), m')) :
    m.fault ≠ some 0 ∧ m'.fault = m.fault.map (· - 1) := by
  unfold synchronizeRecorded at hs
  dsimp only at hs
  split at hs
  · rename_i hfault
    cases hs
    rw [show m.fault = none from hfault]
    exact ⟨by simp, hfault⟩
  · cases hs
  · rename_i n hfault
    cases hs
    rw [show m.fault = some (n + 1) from hfault]
    exact ⟨by simp, rfl⟩

theorem fault_of_synchronizeRecorded_error {s : StreamId} {f : Failure}
    (hs : m.synchronizeRecorded s = (.error f, m')) : m.fault = some 0 := by
  unfold synchronizeRecorded at hs
  dsimp only at hs
  split at hs
  · cases hs
  · assumption
  · cases hs

namespace Rebooked

variable {heap heap' : Heap} {n : Machine}

theorem account (h : Rebooked q heap m m') : m'.account q = heap := by
  obtain ⟨x, -, hx⟩ := h.self
  rw [account_of_some hx, Resource.heap_setHeap]

theorem account_of_ne (h : Rebooked q heap m m') (hr : q ≠ r) : m'.account r = m.account r :=
  account_congr (h.others r hr)

theorem backend? (h : Rebooked q heap m m') (r : ResourceId) : m'.backend? r = m.backend? r := by
  by_cases hr : q = r
  · subst hr
    obtain ⟨x, hx, hx'⟩ := h.self
    unfold Machine.backend?
    rw [hx, hx']
    cases x <;> rfl
  · exact backend?_congr (h.others r hr)

theorem plain (h : Rebooked q heap m m') (hp : m.emulated? r = none) : m'.emulated? r = none := by
  by_cases hr : q = r
  · subst hr
    obtain ⟨x, hx, hx'⟩ := h.self
    obtain ⟨y, hy, hn⟩ := plain_of_emulated?_eq_none hx hp
    obtain rfl : x = y := Option.some.inj (hx.symm.trans hy)
    unfold Machine.emulated?
    rw [hx']
    exact emulated?_setHeap hn heap
  · exact (emulated?_eq_of_resource? (h.others r hr)).trans hp

theorem still_left (h : Rebooked q heap n m') (hs : Still m n) : Rebooked q heap m m' := by
  obtain ⟨x, hx, hx'⟩ := h.self
  exact ⟨⟨x, (resource?_congr hs.resources q).symm.trans hx, hx'⟩,
    fun r hr => (h.others r hr).trans (resource?_congr hs.resources r)⟩

theorem still_right (h : Rebooked q heap m n) (hs : Still n m') : Rebooked q heap m m' := by
  obtain ⟨x, hx, hx'⟩ := h.self
  exact ⟨⟨x, hx, (resource?_congr hs.resources q).trans hx'⟩,
    fun r hr => (resource?_congr hs.resources r).trans (h.others r hr)⟩

theorem trans (h : Rebooked q heap m n) (h' : Rebooked q heap' n m') : Rebooked q heap' m m' := by
  obtain ⟨x, hx, hn⟩ := h.self
  obtain ⟨y, hy, hm⟩ := h'.self
  obtain rfl : x.setHeap heap = y := Option.some.inj (hn.symm.trans hy)
  rw [Resource.setHeap_setHeap] at hm
  exact ⟨⟨x, hx, hm⟩, fun r hr => (h'.others r hr).trans (h.others r hr)⟩

theorem setHeap {x : Resource} (hx : m.resource? q = some x) (heap : Heap) :
    Rebooked q heap m (m.setResource q (x.setHeap heap)) :=
  ⟨⟨x, hx, (resource?_setResource m (lt_of_resource? hx) _ q).trans (if_pos rfl)⟩,
    fun _ hr => resource?_set_of_ne hr m _⟩

theorem giveBack {y : Resource} (hy : m.resource? q = some y) (b : BlockId)
    (bytes alignment : Nat) :
    Rebooked q ((m.account q).giveBack bytes) m (m.giveBack q b bytes alignment) := by
  rcases m.giveBack_eq q b bytes alignment with ⟨hnone, -⟩ | ⟨x, hx, e⟩
  · exact absurd (hnone.symm.trans hy) (by simp)
  · have hset := setHeap (m := m.emit (.returned b (Heap.layout bytes alignment))) hx
      (x.heap.giveBack bytes)
    rw [e, account_of_some hx]
    exact ⟨hset.self, hset.others⟩

end Rebooked

namespace Took

variable {n : Machine}

theorem still_left (h : Took x n m') (hs : Still m n) : Took x m m' :=
  ⟨hs.account x.resource ▸ h.booked.still_left hs, h.moved.trans (congrArg _ hs.moved)⟩

theorem still_right (h : Took x m n) (hs : Still n m') : Took x m m' :=
  ⟨h.booked.still_right hs, hs.moved.trans h.moved⟩

/-- A block that nobody got is given back. -/
theorem giveBack (h : Took x m n) :
    Withdrew x m (n.giveBack x.resource x.block x.bytes x.alignment) := by
  obtain ⟨y, -, hy⟩ := h.booked.self
  have hback := Rebooked.giveBack hy x.block x.bytes x.alignment
  rw [h.booked.account] at hback
  refine ⟨h.booked.trans hback, Heap.layout x.bytes x.alignment, ?_⟩
  rw [trace_giveBack, ← h.moved]
  rfl

end Took

theorem Withdrew.still_left {n : Machine} (h : Withdrew x n m') (hs : Still m n) :
    Withdrew x m m' := by
  obtain ⟨l, hmoved⟩ := h.moved
  exact ⟨hs.account x.resource ▸ h.booked.still_left hs, l,
    hmoved.trans (congrArg (fun trace => _ :: _ :: trace) hs.moved)⟩

/-! ## Requests -/

/-- A heap that refuses changes nothing. -/
theorem allocateFromHeap_cases (m : Machine) (q : ResourceId) (bytes alignment : Nat) :
    (∃ f, m.allocateFromHeap q bytes alignment = (.error f, m)) ∨
      ∃ b n, m.allocateFromHeap q bytes alignment = (.ok b, n) ∧ n.fault = m.fault ∧
        Took ⟨b, q, bytes, alignment⟩ m n := by
  unfold allocateFromHeap
  split
  · exact .inl ⟨_, rfl⟩
  · rename_i y hy
    split
    · exact .inl ⟨_, rfl⟩
    · rename_i b heap n hb
      obtain ⟨-, rfl, rfl⟩ := takeBlock_eq_ok hb
      refine .inr ⟨b, _, rfl, rfl, ?_, rfl⟩
      rw [account_of_some hy]
      exact ⟨⟨y, hy, (resource?_setResource _ (lt_of_resource? hy) _ q).trans (if_pos rfl)⟩,
        fun _ hr => resource?_set_of_ne hr _ _⟩

/-- A recorded backend asks its heap between two synchronizations. If the second one fails, and it
alone, the block is given back. -/
theorem allocateRecorded_cases (m : Machine) (q : ResourceId) (bytes alignment : Nat) :
    (∃ f n, (recordedBackend q).allocate m bytes alignment = (.error f, n) ∧ Still m n) ∨
      (∃ b n, (recordedBackend q).allocate m bytes alignment = (.ok b, n) ∧
        Took ⟨b, q, bytes, alignment⟩ m n) ∨
      ∃ f b n, (recordedBackend q).allocate m bytes alignment = (.error f, n) ∧
        m.fault = some 1 ∧ Withdrew ⟨b, q, bytes, alignment⟩ m n := by
  rcases h₁ : m.synchronizeRecorded defaultStream with ⟨f | u, m₁⟩
  · exact .inl ⟨_, _, Backend.allocate_of_synchronize_error (k := recordedBackend q) h₁ bytes
      alignment, .synchronizeRecorded h₁⟩
  have hbegun := (Still.synchronizeRecorded h₁).trans
    (.note m₁ (e := .hook (.allocate defaultStream)) rfl)
  rcases allocateFromHeap_cases (m₁.emit (.hook (.allocate defaultStream))) q bytes alignment with
    ⟨f, h₂⟩ | ⟨b, m₂, h₂, hfault, htook⟩
  · exact .inl ⟨_, _, Backend.allocate_of_allocateAsync_error (k := recordedBackend q) h₁ h₂,
      hbegun⟩
  rcases h₃ : m₂.synchronizeRecorded defaultStream with ⟨f | u, m₃⟩
  · have hheld := (htook.still_left hbegun).still_right (.synchronizeRecorded h₃)
    refine .inr (.inr ⟨_, b, _, Backend.allocate_of_second_synchronize_error
      (k := recordedBackend q) h₁ h₂ h₃, ?_, ?_⟩)
    · obtain ⟨hne, hcount⟩ := fault_of_synchronizeRecorded_ok h₁
      have hdown := fault_of_synchronizeRecorded_error h₃
      rw [hfault, show (m₁.emit _).fault = m₁.fault from rfl, hcount] at hdown
      rcases hm : m.fault with - | - | - | n
      · simp [hm] at hdown
      · exact absurd hm hne
      · rfl
      · simp [hm] at hdown
    · exact (hheld.still_right (.note m₃ (e := .hook (.deallocate defaultStream)) rfl)).giveBack
  · exact .inr (.inl ⟨b, m₃, Backend.allocate_of_ok (k := recordedBackend q) h₁ h₂ h₃,
      (htook.still_left hbegun).still_right (.synchronizeRecorded h₃)⟩)

/-- A resource without free lists is direct or recorded. -/
theorem backend?_of_plain (hp : m.emulated? q = none) :
    m.backend? q = none ∨ m.backend? q = some (recordedBackend q) := by
  cases hb : m.backend? q with
  | none => exact .inl rfl
  | some backend =>
    rcases backend?_eq_some hb with ⟨e, he, -⟩ | ⟨heap, -, rfl⟩
    · rw [hp] at he
      cases he
    · exact .inr rfl

/-- A direct resource that fails leaves everything as it was, and one that works on streams leaves
every account as it was, unless its block came before the second synchronization failed. -/
theorem allocate_plain (hp : m.emulated? q = none) (bytes alignment : Nat) :
    (∃ f n, m.allocate q bytes alignment = (.error f, n) ∧ Still m n ∧
      (m.backend? q = none → n = m)) ∨
      (∃ b n, m.allocate q bytes alignment = (.ok b, n) ∧ Took ⟨b, q, bytes, alignment⟩ m n) ∨
      ∃ f b n, m.allocate q bytes alignment = (.error f, n) ∧ m.backend? q ≠ none ∧
        m.fault = some 1 ∧ Withdrew ⟨b, q, bytes, alignment⟩ m n := by
  unfold allocate
  rcases backend?_of_plain hp with hb | hb
  · rw [hb]
    rcases allocateFromHeap_cases m q bytes alignment with ⟨f, e⟩ | ⟨b, n, e, -, htook⟩
    · exact .inl ⟨f, m, e, .refl m, fun _ => rfl⟩
    · exact .inr (.inl ⟨b, n, e, htook⟩)
  · rw [hb]
    rcases allocateRecorded_cases m q bytes alignment with
      ⟨f, n, e, hstill⟩ | ⟨b, n, e, htook⟩ | ⟨f, b, n, e, hfault, hwithdrew⟩
    · exact .inl ⟨f, n, e, hstill, fun hd => (by cases hd)⟩
    · exact .inr (.inl ⟨b, n, e, htook⟩)
    · exact .inr (.inr ⟨f, b, n, e, by simp, hfault, hwithdrew⟩)

theorem allocateAsync_recorded (m : Machine) (q : ResourceId) (bytes alignment : Nat)
    (s : StreamId) :
    (∃ f n, (recordedBackend q).allocateAsync m bytes alignment s = (.error f, n) ∧ Still m n) ∨
      ∃ b n, (recordedBackend q).allocateAsync m bytes alignment s = (.ok b, n) ∧
        Took ⟨b, q, bytes, alignment⟩ m n := by
  have hhook := Still.note m (e := .hook (.allocate s)) rfl
  rcases allocateFromHeap_cases (m.emit (.hook (.allocate s))) q bytes alignment with
    ⟨f, e⟩ | ⟨b, n, e, -, htook⟩
  · exact .inl ⟨f, _, e, hhook⟩
  · exact .inr ⟨b, n, e, htook.still_left hhook⟩

/-! ## What calls do to the accounts of a family -/

/-- What one call can do to the accounts of a family. -/
inductive Posted (family : Finset ResourceId) (c : Call) (m m' : Machine) : Prop
  | idle (unmoved : ∀ r ∈ family, Unmoved r m m' [])
  | served (x : Loan) (member : x.resource ∈ family)
      (booked : Rebooked x.resource ((m.account x.resource).take x.bytes) m m')
      (moved : moved m'.trace = .lent x :: .obtained x :: moved m.trace)
  /-- Only a synchronous request to a member that works on streams takes a block that nobody gets,
  and only if its second synchronization fails. -/
  | withdrawn (x : Loan) (member : x.resource ∈ family)
      (request : c = .allocate x.resource x.bytes x.alignment)
      (streams : m.backend? x.resource ≠ none) (fault : m.fault = some 1)
      (withdrew : Withdrew x m m')
  | returned (q : ResourceId) (x : Loan) (l : Layout) (through : q ∈ family)
      (member : x.resource ∈ family)
      (booked : Rebooked q ((m.account q).giveBack x.bytes) m m')
      (moved : moved m'.trace = .returned x.block l :: .released x :: moved m.trace)

namespace Posted

theorem of_still (hp : ∀ r ∈ family, m.emulated? r = none) (h : Still m m') :
    Posted family c m m' :=
  .idle fun r hr => (Unmoved.refl (hp r hr)).congr (resource?_congr h.resources r) h.moved

theorem of_took (hx : x.resource ∈ family) {n : Machine} (h : Took x m n) :
    Posted family c m (n.emit (.lent x)) :=
  .served x hx ⟨h.booked.self, h.booked.others⟩ (congrArg (Event.lent x :: ·) h.moved)

theorem allocate (hp : ∀ r ∈ family, m.emulated? r = none) (hq : q ∈ family)
    (bytes alignment : Nat) :
    Posted family (.allocate q bytes alignment) m (m.call (.allocate q bytes alignment)) := by
  unfold call
  dsimp only
  rcases allocate_plain (hp q hq) bytes alignment with
    ⟨f, n, e, hstill, -⟩ | ⟨b, n, e, htook⟩ | ⟨f, b, n, e, hstreams, hfault, hwithdrew⟩
  · rw [e]
    exact of_still hp hstill
  · rw [e]
    exact of_took hq htook
  · rw [e]
    exact .withdrawn _ hq rfl hstreams hfault hwithdrew

theorem allocateAsync (hp : ∀ r ∈ family, m.emulated? r = none) (hq : q ∈ family)
    (k : BlockKey) : Posted family (.allocateAsync q k) m (m.call (.allocateAsync q k)) := by
  unfold call
  dsimp only
  rcases backend?_of_plain (hp q hq) with hb | hb
  · rw [hb]
    exact of_still hp (.refl m)
  · rw [hb]
    dsimp only
    rcases allocateAsync_recorded m q k.bytes k.alignment k.stream with
      ⟨f, n, e, hstill⟩ | ⟨b, n, e, htook⟩
    · rw [e]
      exact of_still hp hstill
    · rw [e]
      exact of_took hq htook

/-- A block that was given up comes back through a member, once nothing but streams was worked
on. -/
theorem of_giveBack (hq : q ∈ family) (hx : x.resource ∈ family) {y : Resource}
    (hy : m.resource? q = some y) {n : Machine} (h : Still (m.emit (.released x)) n) :
    Posted family c m (n.giveBack q x.block x.bytes x.alignment) := by
  have hthere : n.resource? q = some y := (resource?_congr h.resources q).trans hy
  have hback := (Rebooked.giveBack hthere x.block x.bytes x.alignment).still_left h
  rw [h.account] at hback
  refine .returned q x (Heap.layout x.bytes x.alignment) hq hx ⟨hback.self, hback.others⟩ ?_
  rw [trace_giveBack]
  exact congrArg (Event.returned x.block (Heap.layout x.bytes x.alignment) :: ·) h.moved

theorem release (hp : ∀ r ∈ family, m.emulated? r = none) (hq : q ∈ family)
    (hx : x.resource ∈ family) : Posted family (.release q x) m (m.call (.release q x)) := by
  unfold call
  dsimp only
  split
  · rename_i y hy
    unfold deallocate
    rcases backend?_of_plain (hp q hq) with hb | hb
    · rw [show (m.emit (.released x)).backend? q = none from hb]
      exact of_giveBack hq hx hy (.refl _)
    · rw [show (m.emit (.released x)).backend? q = some (recordedBackend q) from hb]
      exact of_giveBack hq hx hy
        ((Still.synchronizeRecordedNoThrow (m.emit (.released x)) defaultStream).trans
          (.note _ (e := .hook (.deallocate defaultStream)) rfl))
  · exact of_still hp (.refl m)

theorem releaseAsync (hp : ∀ r ∈ family, m.emulated? r = none) (hq : q ∈ family)
    (hx : x.resource ∈ family) (s : StreamId) :
    Posted family (.releaseAsync q x s) m (m.call (.releaseAsync q x s)) := by
  unfold call
  dsimp only
  rcases backend?_of_plain (hp q hq) with hb | hb
  · rw [hb]
    exact of_still hp (.refl m)
  · obtain ⟨y, hy⟩ := Option.isSome_iff_exists.mp
      (isSome_resource?_of_backend? (m := m) (r := q) (by rw [hb]; rfl))
    rw [hb]
    exact of_giveBack hq hx hy (.note (m.emit (.released x)) (e := .hook (.deallocate s)) rfl)

theorem call (hp : ∀ r ∈ family, m.emulated? r = none) (hl : m.Circulates family c) :
    Posted family c m (m.call c) := by
  have idle (hc : ∀ r ∈ family, c.concerns r = false) : Posted family c m (m.call c) :=
    .idle fun r hr => Unmoved.call (hp r hr) hr hl (hc r hr)
  cases c with
  | allocate q bytes alignment =>
    by_cases hq : q ∈ family
    · exact allocate hp hq bytes alignment
    · exact idle fun r hr => beq_false_of_ne (ne_of_mem_of_not_mem hr hq).symm
  | allocateAsync q k =>
    by_cases hq : q ∈ family
    · exact allocateAsync hp hq k
    · exact idle fun r hr => beq_false_of_ne (ne_of_mem_of_not_mem hr hq).symm
  | release q x =>
    by_cases hq : q ∈ family
    · exact release hp hq (hl.mp hq)
    · have hx : x.resource ∉ family := fun hx => hq (hl.mpr hx)
      refine idle fun r hr => ?_
      simp [Call.concerns, (ne_of_mem_of_not_mem hr hq).symm, (ne_of_mem_of_not_mem hr hx).symm]
  | releaseAsync q x s =>
    by_cases hq : q ∈ family
    · exact releaseAsync hp hq (hl.mp hq) s
    · have hx : x.resource ∉ family := fun hx => hq (hl.mpr hx)
      refine idle fun r hr => ?_
      simp [Call.concerns, (ne_of_mem_of_not_mem hr hq).symm, (ne_of_mem_of_not_mem hr hx).symm]
  | drop q => exact idle fun r hr => beq_false_of_ne (ne_of_mem_of_not_mem hr hl).symm
  | _ => exact idle fun _ _ => rfl

theorem fair (h : Posted family c m m') (hr : r ∈ family) (hf : FairReleases m'.trace) :
    FairReleases m.trace := by
  rw [← fairReleases_moved] at hf ⊢
  cases h with
  | idle unmoved =>
    rw [fairReleases_moved] at hf ⊢
    exact ((unmoved r hr).outstanding hf).1
  | served x member booked moved =>
    rw [moved] at hf
    exact hf
  | withdrawn x member request streams fault withdrew =>
    obtain ⟨l, hmoved⟩ := withdrew.moved
    rw [hmoved] at hf
    exact hf
  | returned q x l through member booked moved =>
    rw [moved] at hf
    exact hf.2

/-- Members stay what they are. -/
theorem backend? (h : Posted family c m m') (hr : r ∈ family) (hd : m'.backend? r = none) :
    m.backend? r = none := by
  cases h with
  | idle unmoved => exact (unmoved r hr).direct hd
  | served x member booked moved => exact (booked.backend? r).symm.trans hd
  | withdrawn x member request streams fault withdrew =>
    exact (withdrew.booked.backend? r).symm.trans hd
  | returned q x l through member booked moved => exact (booked.backend? r).symm.trans hd

theorem plain (h : Posted family c m m') (hp : ∀ r ∈ family, m.emulated? r = none) :
    ∀ r ∈ family, m'.emulated? r = none := by
  intro r hr
  cases h with
  | idle unmoved => exact (unmoved r hr).plain
  | served x member booked moved => exact booked.plain (hp r hr)
  | withdrawn x member request streams fault withdrew => exact withdrew.booked.plain (hp r hr)
  | returned q x l through member booked moved => exact booked.plain (hp r hr)

end Posted

end Machine

end StreamMemory
