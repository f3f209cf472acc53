import StreamMemory.Proofs.Custody

/-!
# The accounts of emulated resources

An emulated resource counts the bytes in use, the cached bytes and the bytes of its heap separately.
The counts agree with each other and with what callers hold, and they stay within the capacity. In a
release pass the heap still accounts for blocks that have left the free lists; those bytes are owed.
-/

set_option autoImplicit false

namespace StreamMemory

/-! ## One resource -/

/-- A cached block has its room already. -/
theorem Emulated.room_of_reuse {e e' : Emulated} {k : BlockKey} {b : BlockId} (hs : e.free.Sound)
    (hroom : e.footprint ≤ e.config.capacity) (hu : e.reuse? k = some (b, e')) :
    e.live.current + k.bytes ≤ e.config.capacity := by
  obtain ⟨⟨b', g⟩, hpop, -⟩ := Option.map_eq_some_iff.mp hu
  have htotal := FreeLists.totalBytes_pop hs hpop
  have hcounted := hs.counted
  unfold footprint at hroom
  omega

/-- A block that is used again was counted as cached before. -/
theorem Emulated.footprint_reuse {e e' : Emulated} {k : BlockKey} {b : BlockId} (hs : e.free.Sound)
    (hroom : e.footprint ≤ e.config.capacity) (hu : e.reuse? k = some (b, e')) :
    e'.footprint = e.footprint := by
  have hsum := sum_of_le (room_of_reuse hs hroom hu)
  obtain ⟨⟨b', g⟩, hpop, hbe⟩ := Option.map_eq_some_iff.mp hu
  cases hbe
  have hbefore := hs.counted
  have hafter := (hs.pop hpop).counted
  have htotal := FreeLists.totalBytes_pop hs hpop
  unfold footprint
  rw [Gauge.current_add, hsum]
  dsimp only
  omega

/-- The accounts of a resource, given the bytes lent and the bytes owed by a pass. -/
structure Emulated.Balanced (e : Emulated) (lent owed : Nat) : Prop where
  sound : e.free.Sound
  counted : e.allocations = e.heap.count
  lent : e.live.current = lent
  held : e.heap.allocated.current = e.live.current + e.free.cachedBytes + owed
  room : e.live.current + e.free.cachedBytes ≤ e.config.capacity
  peak : e.live.peak ≤ e.config.capacity

namespace Emulated.Balanced

variable {e e' : Emulated} {lent owed bytes : Nat} {k : BlockKey} {b : BlockId}

theorem new (kind : MemoryKind) (config : Config) :
    Emulated.Balanced { kind, config } 0 0 :=
  ⟨FreeLists.Sound.empty, rfl, rfl, rfl, Nat.zero_le _, Nat.zero_le _⟩

theorem reuse (h : e.Balanced lent owed) (hu : e.reuse? k = some (b, e')) :
    e'.Balanced (lent + k.bytes) owed := by
  have hsum := sum_of_le (room_of_reuse h.sound h.room hu)
  obtain ⟨⟨b', g⟩, hpop, hbe⟩ := Option.map_eq_some_iff.mp hu
  cases hbe
  have hsound := h.sound.pop hpop
  have htotal := FreeLists.totalBytes_pop h.sound hpop
  have hbefore := h.sound.counted
  have hafter := hsound.counted
  have hlent := h.lent
  have hheld := h.held
  have hroom := h.room
  have hpeak := h.peak
  refine ⟨hsound, h.counted, ?_, ?_, ?_, ?_⟩
  · rw [Gauge.current_add, hsum, hlent]
  · rw [Gauge.current_add, hsum]
    dsimp only
    omega
  · rw [Gauge.current_add, hsum]
    dsimp only
    omega
  · rw [Gauge.peak_add, hsum]
    dsimp only
    omega

theorem refuse (h : e.Balanced lent owed) (hr : e.reserve? bytes = some e') :
    (e'.unreserve bytes).Balanced lent owed := by
  have hcurrent := current_unreserve hr
  obtain ⟨rfl, hfits⟩ := reserve?_eq_some hr
  have hsum := sum_of_fits hfits
  unfold footprint at hfits
  have hpeak := h.peak
  unfold unreserve at hcurrent ⊢
  refine ⟨h.sound, h.counted, hcurrent.trans h.lent, ?_, ?_, ?_⟩
  · rw [hcurrent]
    exact h.held
  · rw [hcurrent]
    exact h.room
  · rw [Gauge.peak_sub, Gauge.peak_add, hsum]
    dsimp only
    omega

theorem fresh (h : e.Balanced lent 0) (hr : e.reserve? bytes = some e') :
    (e'.allocated { allocated := e'.heap.allocated.add bytes, count := e'.heap.count + 1 }).Balanced
      (lent + bytes) 0 := by
  obtain ⟨rfl, hfits⟩ := reserve?_eq_some hr
  have hsum := sum_of_fits hfits
  have hlt := e.config.capacity_lt
  unfold footprint at hfits
  have hheld := h.held
  have hpeak := h.peak
  -- Outside of passes the heap accounts for what is counted as in use and as cached.
  have hheap : e.heap.allocated.sum bytes = e.heap.allocated.current + bytes :=
    Gauge.sum_of_lt (by omega)
  unfold allocated
  refine ⟨h.sound, congrArg (· + 1) h.counted, ?_, ?_, ?_, ?_⟩
  · rw [Gauge.current_add, hsum, h.lent]
  · rw [Gauge.current_add, Gauge.current_add, hsum, hheap]
    dsimp only
    omega
  · rw [Gauge.current_add, hsum]
    dsimp only
    omega
  · rw [Gauge.peak_add, hsum]
    dsimp only
    omega

theorem cache (h : e.Balanced (lent + k.bytes) owed) (b : BlockId) :
    (e.cache k b).Balanced lent owed := by
  have hlent := h.lent
  have hheld := h.held
  have hroom := h.room
  have hbytes : (e.free.push k b).cachedBytes = e.free.cachedBytes + k.bytes := rfl
  unfold Emulated.cache
  refine ⟨h.sound.push k b, h.counted, ?_, ?_, ?_, h.peak⟩
  · rw [Gauge.current_sub]
    omega
  · rw [Gauge.current_sub]
    dsimp only
    omega
  · rw [Gauge.current_sub]
    dsimp only
    omega

theorem beginPass (h : e.Balanced lent 0) :
    e.beginPass.Balanced lent (FreeLists.totalBytes e.free.lists) := by
  have hcounted := h.sound.counted
  have hheld := h.held
  have hroom := h.room
  unfold Emulated.beginPass
  refine ⟨FreeLists.Sound.empty, h.counted, h.lent, ?_, ?_, h.peak⟩
  · dsimp only
    omega
  · dsimp only
    omega

theorem giveBack (h : e.Balanced lent (owed + bytes)) :
    Emulated.Balanced { e with heap := e.heap.giveBack bytes } lent owed := by
  have hheld := h.held
  refine ⟨h.sound, h.counted, h.lent, ?_, h.room, h.peak⟩
  change e.heap.allocated.current - bytes = e.live.current + e.free.cachedBytes + owed
  omega

end Emulated.Balanced

/-! ## Bytes of a resource -/

/-- The bytes that a loan is for a resource. -/
def Loan.share (r : ResourceId) (x : Loan) : Nat := if x.resource = r then x.bytes else 0

theorem Loan.share_self (x : Loan) : x.share x.resource = x.bytes := if_pos rfl

theorem Loan.share_of_ne {r : ResourceId} {x : Loan} (h : x.resource ≠ r) : x.share r = 0 :=
  if_neg h

theorem total_share_parcels (q r : ResourceId) (lists : KeyedList BlockKey (List BlockId)) :
    total (Loan.share q) ((parcels r lists).map Parcel.loan) =
      if r = q then FreeLists.totalBytes lists else 0 := by
  rw [totalBytes_eq_total_parcels r, total_map]
  split
  · rename_i hq
    apply total_congr
    intro p hp
    exact if_pos ((resource_of_mem_parcels hp).trans hq)
  · rename_i hq
    have hzero : ∀ p ∈ parcels r lists, Loan.share q p.loan = 0 := by
      intro p hp
      apply Loan.share_of_ne
      rintro rfl
      exact hq (resource_of_mem_parcels hp).symm
    rw [total_eq_mul hzero, Nat.zero_mul]

/-! ## All resources -/

/-- Blocks that callers have or are about to be handed. -/
def Machine.out (m : Machine) (hand : List Parcel) : List Loan :=
  onLoan m.trace ++ hand.map Parcel.loan

theorem Machine.out_cons (m : Machine) (p : Parcel) (hand : List Parcel) :
    (m.out (p :: hand)).Perm (p.loan :: m.out hand) :=
  List.perm_middle

structure Accounted (m : Machine) (hand pass : List Parcel) : Prop where
  known : ∀ x ∈ m.out hand, x.resource < m.resources.length
  balanced : ∀ r e, m.emulated? r = some e →
    e.Balanced (total (Loan.share r) (m.out hand)) (total (Loan.share r) (pass.map Parcel.loan))

namespace Accounted

variable {m m' : Machine} {hand hand' pass pass' : List Parcel} {r : ResourceId} {p : Parcel}

theorem start (env : Environment) : Accounted (Machine.start env) [] [] := by
  refine ⟨by simp [Machine.out, Machine.start, onLoan], ?_⟩
  intro r e he
  simp [Machine.start, Machine.emulated?, Machine.resource?] at he

theorem congr (h : Accounted m hand pass) (hr : m'.resources = m.resources)
    (ho : (m'.out hand').Perm (m.out hand)) : Accounted m' hand' pass := by
  constructor
  · intro x hx
    rw [hr]
    exact h.known x (ho.mem_iff.mp hx)
  · intro r e he
    rw [Machine.emulated?_congr hr] at he
    rw [total_perm _ ho]
    exact h.balanced r e he

/-- A change of one resource, and of the blocks of this resource only. -/
theorem setResource (h : Accounted m hand pass) {x y : Resource} (hx : m.resource? r = some x)
    (hknown : ∀ z ∈ m.out hand', z ∈ m.out hand ∨ z.resource = r)
    (hbalanced : ∀ e, y.emulated? = some e → e.Balanced (total (Loan.share r) (m.out hand'))
      (total (Loan.share r) (pass'.map Parcel.loan)))
    (hhand : ∀ q, q ≠ r → total (Loan.share q) (m.out hand') = total (Loan.share q) (m.out hand))
    (hpass : ∀ q, q ≠ r → total (Loan.share q) (pass'.map Parcel.loan) =
      total (Loan.share q) (pass.map Parcel.loan)) :
    Accounted (m.setResource r y) hand' pass' := by
  have hlt := Machine.lt_of_resource? hx
  have hlen : (m.setResource r y).resources.length = m.resources.length := List.length_set
  constructor
  · intro z hz
    rw [hlen]
    rcases hknown z hz with hz | rfl
    · exact h.known z hz
    · exact hlt
  · intro q f hf
    rw [Machine.emulated?_setResource hlt] at hf
    split at hf
    · rename_i hq
      rw [hq]
      exact hbalanced f hf
    · rename_i hq
      have hb := h.balanced q f hf
      rw [← hhand q hq, ← hpass q hq] at hb
      exact hb

theorem total_out_of_ne {q : ResourceId} (hq : q ≠ r) (k : BlockKey) (b : BlockId) :
    total (Loan.share q) (m.out (⟨r, k, b⟩ :: hand)) = total (Loan.share q) (m.out hand) := by
  rw [total_perm _ (m.out_cons _ hand), total_cons, Loan.share_of_ne (Ne.symm hq), Nat.zero_add]

theorem mem_out_cons {k : BlockKey} {b : BlockId} :
    ∀ x ∈ m.out (⟨r, k, b⟩ :: hand), x ∈ m.out hand ∨ x.resource = r := by
  intro x hx
  rcases List.mem_cons.mp ((m.out_cons _ hand).mem_iff.mp hx) with rfl | hx
  · exact .inr rfl
  · exact .inl hx

theorem mem_out_tail : ∀ x ∈ m.out hand, x ∈ m.out (p :: hand) ∨ x.resource = r :=
  fun _ hx => .inl ((m.out_cons p hand).mem_iff.mpr (List.mem_cons_of_mem _ hx))

theorem total_out_self (k : BlockKey) (b : BlockId) :
    total (Loan.share r) (m.out (⟨r, k, b⟩ :: hand)) =
      total (Loan.share r) (m.out hand) + k.bytes := by
  rw [total_perm _ (m.out_cons _ hand), total_cons, Nat.add_comm]
  exact congrArg _ (if_pos rfl)

theorem hold (h : Accounted m hand pass) {e e' : Emulated} (he : m.emulated? r = some e)
    {k : BlockKey} (b : BlockId)
    (hb : ∀ {lent}, e.Balanced lent (total (Loan.share r) (pass.map Parcel.loan)) →
      e'.Balanced (lent + k.bytes) (total (Loan.share r) (pass.map Parcel.loan))) :
    Accounted (m.setEmulated r e') (⟨r, k, b⟩ :: hand) pass := by
  apply h.setResource (Machine.emulated?_eq_some.mp he) mem_out_cons
  · rintro _ ⟨⟩
    rw [total_out_self]
    exact hb (h.balanced r e he)
  · exact fun q hq => total_out_of_ne hq k b
  · exact fun _ _ => rfl

theorem cache {k : BlockKey} {b : BlockId} (h : Accounted m (⟨r, k, b⟩ :: hand) pass)
    {e : Emulated} (he : m.emulated? r = some e) :
    Accounted (m.setEmulated r (e.cache k b)) hand pass := by
  apply h.setResource (Machine.emulated?_eq_some.mp he) mem_out_tail
  · rintro _ ⟨⟩
    have hb := h.balanced r e he
    rw [total_out_self] at hb
    exact hb.cache b
  · exact fun q hq => (total_out_of_ne hq k b).symm
  · exact fun _ _ => rfl

theorem beginPass (h : Accounted m hand []) {e : Emulated} (he : m.emulated? r = some e) :
    Accounted (m.setEmulated r e.beginPass) hand (parcels r e.free.lists) := by
  apply h.setResource (Machine.emulated?_eq_some.mp he)
  · exact fun _ hx => .inl hx
  · rintro _ ⟨⟩
    rw [total_share_parcels, if_pos rfl]
    exact (h.balanced r e he).beginPass
  · exact fun _ _ => rfl
  · intro q hq
    rw [total_share_parcels, if_neg (Ne.symm hq)]
    rfl

theorem discard (h : Accounted m hand []) {x : Resource} (hx : m.resource? r = some x) :
    Accounted { m with resources := m.resources.set r none } hand (x.parcels r) := by
  constructor
  · intro y hy
    rw [List.length_set]
    exact h.known y hy
  · intro q f hf
    obtain ⟨hq, hf'⟩ := Machine.emulated?_of_discard hf
    have howed : total (Loan.share q) ((x.parcels r).map Parcel.loan) = 0 := by
      cases x with
      | emulated e => exact (total_share_parcels q r e.free.lists).trans (if_neg hq)
      | _ => rfl
    rw [howed]
    exact h.balanced q f hf'

theorem takeBlock (h : Accounted m hand pass) {heap heap' : Heap} {bytes alignment : Nat}
    {b : BlockId} (hb : m.takeBlock r heap bytes alignment = .ok (b, heap', m')) :
    Accounted m' hand pass := by
  obtain ⟨-, -, rfl⟩ := Machine.takeBlock_eq_ok hb
  exact h.congr rfl (List.Perm.refl _)

theorem holdPlain (h : Accounted m hand pass) {x : Resource} (hx : m.resource? r = some x)
    (hn : x.emulated? = none) (heap : Heap) (k : BlockKey) (b : BlockId) :
    Accounted (m.setResource r (x.setHeap heap)) (⟨r, k, b⟩ :: hand) pass := by
  apply h.setResource hx mem_out_cons
  · intro e he
    rw [Machine.emulated?_setHeap hn] at he
    cases he
  · exact fun q hq => total_out_of_ne hq k b
  · exact fun _ _ => rfl

theorem giveBackPlain {k : BlockKey} {b : BlockId} (h : Accounted m (⟨r, k, b⟩ :: hand) pass)
    {x : Resource} (hx : m.resource? r = some x) (hn : x.emulated? = none) :
    Accounted (m.giveBack r b k.bytes k.alignment) hand pass := by
  have hm : Accounted (m.emit (.returned b (Heap.layout k.bytes k.alignment)))
      (⟨r, k, b⟩ :: hand) pass := h.congr rfl (List.Perm.refl _)
  rcases m.giveBack_eq r b k.bytes k.alignment with ⟨hy, -⟩ | ⟨y, hy, e⟩
  · exact absurd (hy.symm.trans hx) (by simp)
  · obtain rfl : x = y := Option.some.inj (hx.symm.trans hy)
    rw [e]
    apply hm.setResource hx mem_out_tail
    · intro e he
      rw [Machine.emulated?_setHeap hn] at he
      cases he
    · exact fun q hq => (total_out_of_ne hq k b).symm
    · exact fun _ _ => rfl

theorem giveBackOwed {k : BlockKey} {b : BlockId} (h : Accounted m hand (⟨r, k, b⟩ :: pass)) :
    Accounted (m.giveBack r b k.bytes k.alignment) hand pass := by
  have hm : Accounted (m.emit (.returned b (Heap.layout k.bytes k.alignment))) hand
      (⟨r, k, b⟩ :: pass) := h.congr rfl (List.Perm.refl _)
  have hother : ∀ q, q ≠ r → total (Loan.share q) (pass.map Parcel.loan) =
      total (Loan.share q) ((⟨r, k, b⟩ :: pass).map Parcel.loan) := by
    intro q hq
    rw [List.map_cons, total_cons, Loan.share_of_ne (Ne.symm hq), Nat.zero_add]
  rcases m.giveBack_eq r b k.bytes k.alignment with ⟨hnone, e⟩ | ⟨x, hx, e⟩
  · rw [e]
    refine ⟨hm.known, fun q f hf => ?_⟩
    have hq : q ≠ r := by
      rintro rfl
      exact absurd (hnone.symm.trans (Machine.emulated?_eq_some.mp hf)) (by simp)
    rw [hother q hq]
    exact hm.balanced q f hf
  · rw [e]
    refine hm.setResource hx (fun _ hy => .inl hy) ?_ (fun _ _ => rfl) hother
    intro f' hf'
    cases x with
    | emulated f =>
      cases hf'
      have hb := hm.balanced r f (Machine.emulated?_eq_some.mpr hx)
      rw [List.map_cons, total_cons, Nat.add_comm] at hb
      have hshare : Loan.share r (Parcel.loan ⟨r, k, b⟩) = k.bytes := if_pos rfl
      rw [hshare] at hb
      exact hb.giveBack
    | _ => cases hf'

/-- What a resource owes does not depend on the order of the blocks. -/
theorem reorder (h : Accounted m hand pass) (hp : pass.Perm pass') : Accounted m hand pass' := by
  refine ⟨h.known, fun r e he => ?_⟩
  rw [← total_perm _ (hp.map Parcel.loan)]
  exact h.balanced r e he

/-- Nobody has a block of a resource that is only now created. -/
theorem create (h : Accounted m hand []) {x : Resource}
    (hx : ∀ e, x.emulated? = some e → e.Balanced 0 0) : Accounted (m.create x).2 hand [] := by
  constructor
  · intro y hy
    have hlt := h.known y hy
    unfold Machine.create
    rw [List.length_append]
    exact Nat.lt_add_right _ hlt
  · intro q e he
    rw [Machine.emulated?_create] at he
    split at he
    · rename_i hq
      have hnone : ∀ y ∈ m.out hand, Loan.share q y = 0 := by
        intro y hy
        exact Loan.share_of_ne (hq ▸ Nat.ne_of_lt (h.known y hy))
      change e.Balanced (total (Loan.share q) (m.out hand)) 0
      rw [total_eq_mul hnone, Nat.zero_mul]
      exact hx e he
    · exact h.balanced q e he

end Accounted

/-! ## Runs -/

namespace Machine

/-- Callers release a block only through the resource that it came from. -/
def Homeward (_ : Machine) : Call → Prop
  | .releaseAsync r x _ | .release r x => r = x.resource
  | _ => True

instance decidableHomeward (m : Machine) : (c : Call) → Decidable (m.Homeward c)
  | .releaseAsync r x _ | .release r x => inferInstanceAs (Decidable (r = x.resource))
  | .build _ | .createStream | .enqueue .. | .synchronize _ | .synchronizeNoThrow _ | .destroy _
  | .allocateAsync .. | .allocate .. | .releaseCached _ | .drop _ | .write .. | .copy ..
  | .failSynchronizeAfter _ | .synchronizeRecorded _ => .isTrue trivial

/-- The accounts are right as long as callers and operations give up what is on loan. -/
def Solvent (m : Machine) (hand pass : List Parcel) : Prop :=
  FairReleases m.trace → Accounted m hand pass

namespace Solvent

variable {m m' : Machine} {hand pass : List Parcel} {r : ResourceId} {k : BlockKey} {b : BlockId}

theorem congr (h : m.Solvent hand pass) (hr : m'.resources = m.resources)
    (ht : m'.trace = m.trace) : m'.Solvent hand pass := by
  intro hf
  apply (h (ht ▸ hf)).congr hr
  unfold out
  rw [ht]

theorem note (h : m.Solvent hand pass) {e : Event} (he : e.moves = false) :
    (m.emit e).Solvent hand pass := by
  intro hf
  refine (h hf.tail).congr rfl ?_
  unfold out
  rw [show onLoan (m.emit e).trace = onLoan m.trace from onLoan_cons m.trace he]

theorem giveUp (h : m.Solvent hand pass) (p : Parcel) :
    (m.emit (.released p.loan)).Solvent (p :: hand) pass := by
  intro hf
  refine (h hf.2).congr rfl ?_
  apply (out_cons _ p hand).trans
  exact ((List.perm_cons_erase hf.1).append_right (hand.map Parcel.loan)).symm

theorem lend {p : Parcel} (h : m.Solvent (p :: hand) pass) :
    (m.emit (.lent p.loan)).Solvent hand pass :=
  fun hf => (h hf).congr rfl (m.out_cons p hand).symm

theorem cache (h : m.Solvent (⟨r, k, b⟩ :: hand) pass) {e : Emulated}
    (he : m.emulated? r = some e) :
    ((m.setEmulated r (e.cache k b)).emit (.cached r k b)).Solvent hand pass :=
  fun hf => ((h hf).cache he).congr rfl (List.Perm.refl _)

theorem giveBackOwed (h : m.Solvent hand (⟨r, k, b⟩ :: pass)) :
    (m.giveBack r b k.bytes k.alignment).Solvent hand pass :=
  fun hf => (h (fairReleases_of_giveBack hf)).giveBackOwed

theorem drain (h : m.Solvent hand pass) (request : DrainRequest) (s : StreamId) :
    (m.drain request s).2.Solvent hand pass := by
  refine DrainStable.drain (P := fun m => m.Solvent hand pass) ⟨?_, ?_, ?_, ?_⟩ request s h
  · exact fun _ hm => hm.congr rfl rfl
  · exact fun he hm => hm.note (Event.moves_of_idle he)
  · exact fun _ _ hm => hm.congr rfl rfl
  · intro m s r b k hm
    rcases m.freeBlock_eq s r b k with hf | ⟨e, he, hf⟩
    · rw [hf]
      exact hm.note rfl
    · rw [hf]
      exact (((hm.giveUp ⟨r, k, b⟩).cache he).note rfl).note rfl

end Solvent

end Machine

theorem custody_solvent : Custody Machine.Homeward False Machine.Solvent where
  note he _ h := h.note he
  frame _ hr ht _ _ h := h.congr hr ht
  drain request s h := h.drain request s
  reuse {m hand pass r b e e' k} he hu h :=
    fun hf => (h hf).hold he b fun hb => hb.reuse hu
  refuse {m hand pass r e e' k} he hr h := by
    intro hf
    refine (h hf).setResource (Machine.emulated?_eq_some.mp he) (fun _ hx => .inl hx) ?_
      (fun _ _ => rfl) (fun _ _ => rfl)
    rintro _ ⟨⟩
    exact ((h hf).balanced r e he).refuse hr
  fresh {m m' hand r heap b e e' k} he hr hb h := by
    intro hf
    have hm := (h (Machine.fairReleases_of_takeBlock hb hf)).takeBlock hb
    have he' := (Machine.emulated?_takeBlock hb r).trans he
    obtain ⟨-, rfl, -⟩ := Machine.takeBlock_eq_ok hb
    exact hm.hold he' b fun hbal => hbal.fresh hr
  cache he h := h.cache he
  beginPass he h := fun hf => (h hf).beginPass he
  discard _ hx h := fun hf => (h hf).discard hx
  reorder hp h := fun hf => (h hf).reorder hp
  releaseKey {_ hand _ _ _ lists} h :=
    Custody.releaseKey_of_giveBack (I := Machine.Solvent) (fun he _ hn => hn.note he)
      (fun request s hn => hn.drain request s) (fun hn => hn.giveBackOwed) hand lists h
  plainFresh {m m' hand pass r heap b x k} hx hn hb h := by
    intro hf
    have hm := (h (Machine.fairReleases_of_takeBlock hb hf)).takeBlock hb
    exact hm.holdPlain ((Machine.resource?_takeBlock hb r).trans hx) hn heap k b
  plainReturn {m hand pass r x p} hx hn hp h := by
    obtain rfl : p.resource = r := hp.resolve_right id
    exact fun hf => (h (Machine.fairReleases_of_giveBack hf)).giveBackPlain hx hn
  lend h := h.lend
  build {m blueprint} _ h := by
    cases blueprint with
    | emulated kind config =>
      have hn := h.note (e := .logged (.resourceCreated kind config)) rfl
      intro hf
      apply (hn hf).create
      rintro _ ⟨⟩
      exact Emulated.Balanced.new kind config
    | _ => exact fun hf => (h hf).create fun _ he => by cases he
  enqueue {m s op} _ h := (h.note (e := .enqueued s op) rfl).congr rfl rfl
  releaseAsync {m r x s} hl _ h := by
    obtain rfl : r = x.resource := hl
    exact ⟨x.resource, .inl rfl, h.giveUp ⟨x.resource, ⟨s, x.bytes, x.alignment⟩, x.block⟩⟩
  release {m r x} hl _ h := by
    obtain rfl : r = x.resource := hl
    exact ⟨x.resource, .inl rfl, h.giveUp ⟨x.resource, ⟨_, x.bytes, x.alignment⟩, x.block⟩⟩

/-! ## Configurations -/

/-- A resource was created with a configuration, if it is an emulated one. -/
structure Machine.Chartered (r : ResourceId) (config : Config) (m : Machine) : Prop where
  created : r < m.resources.length
  config : ∀ e, m.emulated? r = some e → e.config = config

namespace Machine.Chartered

variable {m m' : Machine} {q r : ResourceId} {config : Config}

theorem congr (h : m.Chartered r config) (hr : m'.resources = m.resources) :
    m'.Chartered r config := by
  constructor
  · rw [hr]
    exact h.created
  · intro e he
    rw [emulated?_congr hr] at he
    exact h.config e he

theorem setResource (h : m.Chartered r config) {x y : Resource} (hx : m.resource? q = some x)
    (hy : ∀ e, y.emulated? = some e → ∃ f, x.emulated? = some f ∧ e.config = f.config) :
    (m.setResource q y).Chartered r config := by
  refine ⟨Nat.lt_of_lt_of_eq h.created List.length_set.symm, fun e he => ?_⟩
  rw [emulated?_setResource (lt_of_resource? hx)] at he
  split at he
  · rename_i hq
    subst hq
    obtain ⟨f, hf, hc⟩ := hy e he
    apply hc.trans
    apply h.config f
    unfold emulated?
    rw [hx]
    exact hf
  · exact h.config e he

theorem setEmulated (h : m.Chartered r config) {e e' : Emulated} (he : m.emulated? q = some e)
    (hc : e'.config = e.config) : (m.setEmulated q e').Chartered r config := by
  apply h.setResource (emulated?_eq_some.mp he)
  rintro _ ⟨⟩
  exact ⟨e, rfl, hc⟩

theorem setHeap (h : m.Chartered r config) {x : Resource} (hx : m.resource? q = some x)
    (heap : Heap) : (m.setResource q (x.setHeap heap)).Chartered r config := by
  apply h.setResource hx
  intro e he
  cases x with
  | emulated f =>
    cases he
    exact ⟨f, rfl, rfl⟩
  | _ => cases he

theorem discard (h : m.Chartered r config) (q : ResourceId) :
    Chartered r config { m with resources := m.resources.set q none } := by
  constructor
  · rw [List.length_set]
    exact h.created
  · intro e he
    exact h.config e (emulated?_of_discard he).2

theorem create (h : m.Chartered r config) (x : Resource) : (m.create x).2.Chartered r config := by
  constructor
  · unfold Machine.create
    rw [List.length_append]
    exact Nat.lt_add_right _ h.created
  · intro e he
    rw [emulated?_create, if_neg (Nat.ne_of_lt h.created)] at he
    exact h.config e he

theorem giveBack (h : m.Chartered r config) (q : ResourceId) (b : BlockId)
    (bytes alignment : Nat) : (m.giveBack q b bytes alignment).Chartered r config := by
  have hm : (m.emit (.returned b (Heap.layout bytes alignment))).Chartered r config := h.congr rfl
  rcases m.giveBack_eq q b bytes alignment with ⟨-, e⟩ | ⟨x, hx, e⟩
  · rw [e]
    exact hm
  · rw [e]
    exact hm.setHeap hx _

theorem drain (h : m.Chartered r config) (request : DrainRequest) (s : StreamId) :
    (m.drain request s).2.Chartered r config := by
  refine DrainStable.drain ⟨fun _ hm => hm.congr rfl, fun _ hm => hm.congr rfl,
    fun _ _ hm => hm.congr rfl, ?_⟩ request s h
  intro m s q b k hm
  rcases m.freeBlock_eq s q b k with hf | ⟨e, he, hf⟩
  · rw [hf]
    exact hm.congr rfl
  · have hr : (m.emit (.released ⟨b, q, k.bytes, k.alignment⟩)).Chartered r config := hm.congr rfl
    have hc : ((m.emit (.released ⟨b, q, k.bytes, k.alignment⟩)).setEmulated q
        (e.cache k b)).Chartered r config := hr.setEmulated he rfl
    rw [hf]
    exact hc.congr rfl

end Machine.Chartered

theorem custody_chartered (r : ResourceId) (config : Config) :
    Custody (fun _ _ => True) True fun m _ _ => m.Chartered r config where
  note _ _ h := h.congr rfl
  frame _ hr _ _ _ h := h.congr hr
  drain request s h := h.drain request s
  reuse he hu h := by
    obtain ⟨⟨b', g⟩, -, hbe⟩ := Option.map_eq_some_iff.mp hu
    cases hbe
    exact h.setEmulated he rfl
  refuse he hr h := by
    obtain ⟨rfl, -⟩ := Emulated.reserve?_eq_some hr
    exact h.setEmulated he rfl
  fresh he hr hb h := by
    obtain ⟨rfl, -⟩ := Emulated.reserve?_eq_some hr
    have hm := h.congr (Machine.resources_takeBlock hb)
    exact hm.setEmulated ((Machine.emulated?_takeBlock hb _).trans he) rfl
  cache {m _ _ q k b e} he h := by
    have hset : (m.setEmulated q (e.cache k b)).Chartered r config := h.setEmulated he rfl
    exact hset.congr rfl
  beginPass he h := h.setEmulated he rfl
  discard _ _ h := h.discard _
  reorder _ h := h
  releaseKey {_ hand _ _ _ lists} h :=
    Custody.releaseKey_of_giveBack (I := fun m _ _ => m.Chartered r config)
      (fun _ _ hn => hn.congr rfl) (fun request s hn => hn.drain request s)
      (fun {_ _ _ q b k} hn => hn.giveBack q b k.bytes k.alignment) hand lists h
  plainFresh hx _ hb h :=
    (h.congr (Machine.resources_takeBlock hb)).setHeap ((Machine.resource?_takeBlock hb _).trans hx) _
  plainReturn _ _ _ h := h.giveBack _ _ _ _
  lend h := h.congr rfl
  build {m blueprint} _ h := by
    cases blueprint with
    | emulated kind other =>
      have hlog : (m.log (.resourceCreated kind other)).Chartered r config := h.congr rfl
      exact hlog.create _
    | _ => exact h.create _
  enqueue _ h := h.congr rfl
  releaseAsync {_ q _ _} _ _ h := ⟨q, .inl rfl, h.congr rfl⟩
  release {_ q _} _ _ h := ⟨q, .inl rfl, h.congr rfl⟩

namespace Machine

theorem chartered_build (m : Machine) (kind : MemoryKind) (config : Config) :
    (m.build (.emulated kind config)).Chartered m.resources.length config := by
  constructor
  · unfold build createEmulated create
    rw [List.length_append]
    exact Nat.lt_succ_self _
  · intro e he
    have hnew : some e = some { kind, config } := by
      rw [← he]
      exact (emulated?_create _ _ _).trans (if_pos rfl)
    cases hnew
    rfl

/-- The accounts of an emulated resource, at any time after it was created with `config`. -/
theorem balanced_run {env : Environment} {before after : List Call} {kind : MemoryKind}
    {config : Config} {m : Machine} {e : Emulated}
    (hm : m = (start env).run (before ++ .build (.emulated kind config) :: after))
    (ho : (start env).Obeys Homeward (before ++ .build (.emulated kind config) :: after))
    (hf : FairReleases m.trace)
    (he : m.emulated? ((start env).run before).resources.length = some e) :
    e.live.current =
        total (Loan.share ((start env).run before).resources.length) (onLoan m.trace) ∧
      e.free.cachedBytes = FreeLists.totalBytes e.free.lists ∧
      (e.free.lists.map Prod.fst).Nodup ∧ (∀ entry ∈ e.free.lists, entry.2 ≠ []) ∧
      e.live.current + e.free.cachedBytes = e.heap.allocated.current ∧
      e.heap.allocated.current ≤ config.capacity ∧ e.live.peak ≤ config.capacity ∧
      e.allocations = e.heap.count := by
  have haccounts : Accounted m [] [] := by
    rw [hm] at hf ⊢
    exact custody_solvent.run ho (fun _ => Accounted.start env) hf
  have hb := haccounts.balanced _ e he
  have hconfig : e.config = config := by
    rw [hm, run_append, run_cons] at he
    exact ((custody_chartered _ config).run (obeys_any _ after)
      (chartered_build _ kind config)).config e he
  have hheld := hb.held
  have hroom := hb.room
  rw [hconfig] at hroom
  have hlent := hb.lent
  unfold out at hlent
  rw [List.map_nil, List.append_nil] at hlent
  rw [List.map_nil, total_nil] at hheld
  refine ⟨hlent, hb.sound.counted, hb.sound.keys, hb.sound.filled, hheld.symm, ?_,
    hconfig ▸ hb.peak, hb.counted⟩
  omega

/-- Of two blocks of a new resource, one was released. -/
def leased : Machine :=
  (start {}).run ([] ++ .build (.emulated .device .standard) :: [.allocateAsync 0 ⟨1, 8, 8⟩,
    .allocateAsync 0 ⟨1, 4, 8⟩, .releaseAsync 0 ⟨0, 0, 8, 8⟩ 1])

theorem balanced_leased :
    ∃ e, leased.emulated? 0 = some e ∧ e.live.current = 4 ∧ e.free.cachedBytes = 8 ∧
      e.live.current = total (Loan.share 0) (onLoan leased.trace) ∧
      e.live.current + e.free.cachedBytes = e.heap.allocated.current ∧
      e.heap.allocated.current ≤ megabytes 256 := by
  have hm : leased = (start {}).run ([] ++ .build (.emulated .device .standard) ::
    [.allocateAsync 0 ⟨1, 8, 8⟩, .allocateAsync 0 ⟨1, 4, 8⟩, .releaseAsync 0 ⟨0, 0, 8, 8⟩ 1]) := rfl
  have he : leased.emulated? 0 = some {
      kind := .device
      heap := ⟨⟨12, 12⟩, 2⟩
      free := ⟨[(⟨1, 8, 8⟩, [0])], 8⟩
      live := ⟨4, 12⟩
      allocations := 2 } := by
    decide
  have h := balanced_run hm (by decide) (by decide) he
  exact ⟨_, he, rfl, rfl, h.1, h.2.2.2.2.1, h.2.2.2.2.2.1⟩

end Machine

end StreamMemory
