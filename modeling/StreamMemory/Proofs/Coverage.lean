import StreamMemory.Proofs.HighWater

/-!
# Bytes in use cover what is on loan

An emulated resource counts at least the bytes of its blocks that callers have, whatever becomes of
blocks that another resource took. So no block that comes back makes the count stop at zero, and
since the free lists count right, taking a block out of them does not either.
-/

set_option autoImplicit false

namespace StreamMemory

/-- A resource counts some bytes as in use, and keeps within its capacity. -/
structure Emulated.Spans (e : Emulated) (lent : Nat) : Prop where
  lent_le : lent ≤ e.live.current
  room : e.footprint ≤ e.config.capacity

/-- If everything that was given up was on loan, a resource counts the bytes of its blocks that are
on loan or in hand. Nobody has a block of a resource that is not there yet. -/
structure Covers (r : ResourceId) (m : Machine) (hand : List Parcel) : Prop where
  sound : ∀ e, m.emulated? r = some e → e.free.Sound
  covered : FairReleases m.trace → ∀ e, m.emulated? r = some e →
    e.Spans (total (Loan.share r) (m.out hand))
  unborn : FairReleases m.trace → m.resources.length ≤ r →
    total (Loan.share r) (m.out hand) = 0

namespace Covers

variable {m m' : Machine} {hand hand' : List Parcel} {q r : ResourceId} {e e' : Emulated}
variable {k : BlockKey} {b : BlockId}

theorem start (r : ResourceId) (env : Environment) : Covers r (Machine.start env) [] := by
  refine ⟨?_, ?_, fun _ _ => rfl⟩
  · intro e he
    simp [Machine.start, Machine.emulated?, Machine.resource?] at he
  · intro _ e he
    simp [Machine.start, Machine.emulated?, Machine.resource?] at he

theorem of_plain (he : m.emulated? r = none) (hr : r < m.resources.length) : Covers r m hand := by
  refine ⟨?_, ?_, fun _ hle => absurd hr (Nat.not_lt.mpr hle)⟩
  · intro e h
    cases he.symm.trans h
  · intro _ e h
    cases he.symm.trans h

theorem total_out_cons (r : ResourceId) (m : Machine) (p : Parcel) (hand : List Parcel) :
    total (Loan.share r) (m.out (p :: hand)) =
      p.loan.share r + total (Loan.share r) (m.out hand) := by
  rw [total_perm _ (m.out_cons p hand), total_cons]

theorem mono (h : Covers r m hand) (hr : m'.resources = m.resources)
    (hf : FairReleases m'.trace → FairReleases m.trace ∧
      total (Loan.share r) (m'.out hand') ≤ total (Loan.share r) (m.out hand)) :
    Covers r m' hand' := by
  have he : m'.emulated? r = m.emulated? r := Machine.emulated?_congr hr r
  refine ⟨fun e h' => h.sound e (he ▸ h'), fun hfair e h' => ?_, fun hfair hle => ?_⟩
  · obtain ⟨hpast, hout⟩ := hf hfair
    have hspans := h.covered hpast e (he ▸ h')
    exact ⟨Nat.le_trans hout hspans.lent_le, hspans.room⟩
  · obtain ⟨hpast, hout⟩ := hf hfair
    rw [hr] at hle
    exact Nat.le_zero.mp (h.unborn hpast hle ▸ hout)

theorem congr (h : Covers r m hand) (hr : m'.resources = m.resources) (ht : m'.trace = m.trace) :
    Covers r m' hand := by
  apply h.mono hr
  unfold Machine.out
  rw [ht]
  exact fun hf => ⟨hf, Nat.le_refl _⟩

theorem note (h : Covers r m hand) {v : Event} (he : v.moves = false) :
    Covers r (m.emit v) hand := by
  have hsame : onLoan (m.emit v).trace = onLoan m.trace := onLoan_cons m.trace he
  refine h.mono (rfl : (m.emit v).resources = m.resources) fun hf => ⟨hf.tail, Nat.le_of_eq ?_⟩
  unfold Machine.out
  rw [hsame]

theorem giveUp (h : Covers r m hand) {x : Loan} {p : Parcel} (hp : p.loan.share r ≤ x.share r) :
    Covers r (m.emit (.released x)) (p :: hand) := by
  refine h.mono (rfl : (m.emit (.released x)).resources = m.resources) fun hf => ⟨hf.2, ?_⟩
  have herase := total_perm (Loan.share r) (List.perm_cons_erase hf.1)
  rw [total_out_cons]
  unfold Machine.out
  rw [show onLoan (m.emit (.released x)).trace = (onLoan m.trace).erase x from rfl, total_append,
    total_append]
  rw [total_cons] at herase
  omega

theorem lend {p : Parcel} (h : Covers r m (p :: hand)) : Covers r (m.emit (.lent p.loan)) hand :=
  h.mono rfl fun hf => ⟨hf, Nat.le_of_eq (total_perm _ (m.out_cons p hand).symm)⟩

theorem takeBlock (h : Covers r m hand) {heap heap' : Heap} {bytes alignment : Nat}
    (hb : m.takeBlock q heap bytes alignment = .ok (b, heap', m')) : Covers r m' hand := by
  obtain ⟨-, -, rfl⟩ := Machine.takeBlock_eq_ok hb
  exact h.mono rfl fun hf => ⟨hf, Nat.le_refl _⟩

/-- A change of one resource. What it means for the blocks on loan matters only if it is `r`. -/
theorem setResource (h : Covers r m hand) {x y : Resource} (hx : m.resource? q = some x)
    (hr : q = r → ∀ f, y.emulated? = some f → ∃ e, x.emulated? = some e ∧
      (e.free.Sound → f.free.Sound) ∧
      (FairReleases m.trace → e.free.Sound → e.Spans (total (Loan.share r) (m.out hand)) →
        f.Spans (total (Loan.share r) (m.out hand'))))
    (hother : q ≠ r → total (Loan.share r) (m.out hand') ≤ total (Loan.share r) (m.out hand)) :
    Covers r (m.setResource q y) hand' := by
  have hlt := Machine.lt_of_resource? hx
  have hsome : ∀ e, x.emulated? = some e → m.emulated? q = some e := by
    intro e he
    unfold Machine.emulated?
    rw [hx]
    exact he
  have hout : (m.setResource q y).out hand' = m.out hand' := rfl
  refine ⟨?_, ?_, ?_⟩
  · intro f hf
    rw [Machine.emulated?_setResource hlt] at hf
    split at hf
    · rename_i hq
      subst hq
      obtain ⟨e, he, hs, -⟩ := hr rfl f hf
      exact hs (h.sound e (hsome e he))
    · exact h.sound f hf
  · intro hfair f hf
    rw [hout]
    rw [Machine.emulated?_setResource hlt] at hf
    split at hf
    · rename_i hq
      subst hq
      obtain ⟨e, he, -, hl⟩ := hr rfl f hf
      exact hl hfair (h.sound e (hsome e he)) (h.covered hfair e (hsome e he))
    · rename_i hq
      have hspans := h.covered hfair f hf
      exact ⟨Nat.le_trans (hother (Ne.symm hq)) hspans.lent_le, hspans.room⟩
  · intro hfair hle
    have hle' : m.resources.length ≤ r := by rwa [← List.length_set]
    have hq : q ≠ r := Nat.ne_of_lt (Nat.lt_of_lt_of_le hlt hle')
    rw [hout]
    exact Nat.le_zero.mp (h.unborn hfair hle' ▸ hother hq)

theorem setEmulated (h : Covers r m hand) (he : m.emulated? q = some e)
    (hsound : e.free.Sound → e'.free.Sound)
    (hlive : q = r → FairReleases m.trace → e.free.Sound →
      e.Spans (total (Loan.share r) (m.out hand)) → e'.Spans (total (Loan.share r) (m.out hand')))
    (hother : q ≠ r → total (Loan.share r) (m.out hand') ≤ total (Loan.share r) (m.out hand)) :
    Covers r (m.setEmulated q e') hand' := by
  refine h.setResource (Machine.emulated?_eq_some.mp he) (fun hq f hf => ?_) hother
  cases hf
  exact ⟨e, rfl, hsound, hlive hq⟩

/-- The bytes of a block that goes into a hand are counted. -/
theorem hold (h : Covers r m hand) (he : m.emulated? q = some e)
    (hsound : e.free.Sound → e'.free.Sound)
    (hlive : e.free.Sound → e.footprint ≤ e.config.capacity →
      e'.live.current = e.live.current + k.bytes ∧ e'.footprint ≤ e'.config.capacity)
    (b : BlockId) : Covers r (m.setEmulated q e') (⟨q, k, b⟩ :: hand) := by
  refine h.setEmulated he hsound ?_ fun hq =>
    Nat.le_of_eq (Accounted.total_out_of_ne (Ne.symm hq) k b)
  rintro rfl - hs hspans
  obtain ⟨hcurrent, hroom⟩ := hlive hs hspans.room
  refine ⟨?_, hroom⟩
  rw [Accounted.total_out_self, hcurrent]
  exact Nat.add_le_add_right hspans.lent_le _

theorem reuse (h : Covers r m hand) (he : m.emulated? q = some e)
    (hu : e.reuse? k = some (b, e')) : Covers r (m.setEmulated q e') (⟨q, k, b⟩ :: hand) := by
  refine h.hold he ?_ ?_ b
  · obtain ⟨⟨b', g⟩, hpop, hbe⟩ := Option.map_eq_some_iff.mp hu
    cases hbe
    exact fun hs => hs.pop hpop
  · intro hs hroom
    have hsum := Emulated.sum_of_le (Emulated.room_of_reuse hs hroom hu)
    rw [Emulated.footprint_reuse hs hroom hu]
    obtain ⟨⟨b', g⟩, -, hbe⟩ := Option.map_eq_some_iff.mp hu
    cases hbe
    exact ⟨hsum, hroom⟩

theorem fresh (h : Covers r m hand) (he : m.emulated? q = some e)
    (hr : e.reserve? k.bytes = some e') {heap : Heap}
    (hb : m.takeBlock q e'.heap k.bytes k.alignment = .ok (b, heap, m')) :
    Covers r (m'.setEmulated q (e'.allocated heap)) (⟨q, k, b⟩ :: hand) := by
  have hfootprint := Emulated.footprint_reserve hr
  obtain ⟨rfl, hfits⟩ := Emulated.reserve?_eq_some hr
  have he' := (Machine.emulated?_takeBlock hb q).trans he
  refine (h.takeBlock hb).hold he' ?_ ?_ b
  · exact fun hs => hs
  · exact fun _ _ => ⟨Emulated.sum_of_fits hfits, hfootprint ▸ hfits⟩

theorem refuse (h : Covers r m hand) (he : m.emulated? q = some e) {bytes : Nat}
    (hr : e.reserve? bytes = some e') : Covers r (m.setEmulated q (e'.unreserve bytes)) hand := by
  have hcurrent := Emulated.current_unreserve hr
  have hfootprint := Emulated.footprint_unreserve hr
  obtain ⟨rfl, -⟩ := Emulated.reserve?_eq_some hr
  refine h.setEmulated he id (fun _ _ _ hspans => ⟨?_, ?_⟩) fun _ => Nat.le_refl _
  · rw [hcurrent]
    exact hspans.lent_le
  · rw [hfootprint]
    exact hspans.room

/-- The bytes of a block in hand are counted. -/
theorem bytes_le (h : Covers q m (⟨q, k, b⟩ :: hand)) (hf : FairReleases m.trace)
    (he : m.emulated? q = some e) : k.bytes ≤ e.live.current := by
  have hcovered := (h.covered hf e he).lent_le
  rw [Accounted.total_out_self] at hcovered
  omega

/-- The bytes of a block that goes into a free list were counted. -/
theorem shelve (h : Covers r m (⟨q, k, b⟩ :: hand)) (he : m.emulated? q = some e) :
    Covers r (m.setEmulated q (e.cache k b)) hand := by
  refine h.setEmulated he (fun hs => hs.push k b) ?_ fun hq =>
    Nat.le_of_eq (Accounted.total_out_of_ne (Ne.symm hq) k b).symm
  rintro rfl - - ⟨hle, hroom⟩
  rw [Accounted.total_out_self] at hle
  unfold Emulated.footprint at hroom
  constructor
  · change total (Loan.share q) (m.out hand) ≤ e.live.current - k.bytes
    omega
  · change e.live.current - k.bytes + (e.free.cachedBytes + k.bytes) ≤ e.config.capacity
    omega

theorem cache (h : Covers r m (⟨q, k, b⟩ :: hand)) (he : m.emulated? q = some e) :
    Covers r (m.cacheBlock q e b k) hand :=
  (h.shelve he).mono rfl fun hf => ⟨hf, Nat.le_refl _⟩

/-- What happens to the heap of a resource does not concern the bytes in use. -/
theorem setHeap (h : Covers r m hand) {x : Resource} (hx : m.resource? q = some x) (heap : Heap) :
    Covers r (m.setResource q (x.setHeap heap)) hand := by
  refine h.setResource hx (fun _ f hf => ?_) fun _ => Nat.le_refl _
  cases x with
  | emulated e =>
    cases hf
    exact ⟨e, rfl, fun hs => hs, fun _ _ ⟨hle, hroom⟩ => ⟨hle, hroom⟩⟩
  | _ => cases hf

theorem giveBack (h : Covers r m hand) (q : ResourceId) (b : BlockId) (bytes alignment : Nat) :
    Covers r (m.giveBack q b bytes alignment) hand := by
  have hback : Covers r (m.emit (.returned b (Heap.layout bytes alignment))) hand :=
    h.mono rfl fun hf => ⟨hf, Nat.le_refl _⟩
  rcases m.giveBack_eq q b bytes alignment with ⟨-, e⟩ | ⟨x, hx, e⟩
  · rw [e]
    exact hback
  · rw [e]
    exact hback.setHeap hx _

/-- A block that leaves the hands of a machine is not looked for any more. -/
theorem letGo {p : Parcel} (h : Covers r m (p :: hand)) : Covers r m hand := by
  refine h.mono rfl fun hf => ⟨hf, ?_⟩
  rw [total_out_cons]
  exact Nat.le_add_left _ _

theorem holdPlain (h : Covers r m hand) {x : Resource} (hx : m.resource? q = some x)
    (hn : x.emulated? = none) (heap : Heap) (k : BlockKey) (b : BlockId) :
    Covers r (m.setResource q (x.setHeap heap)) (⟨q, k, b⟩ :: hand) := by
  refine h.setResource hx (fun _ f hf => ?_) fun hq =>
    Nat.le_of_eq (Accounted.total_out_of_ne (Ne.symm hq) k b)
  rw [Machine.emulated?_setHeap hn] at hf
  cases hf

theorem drainStable (r : ResourceId) (hand : List Parcel) :
    DrainStable fun m => Covers r m hand where
  streams _ h := h.congr rfl rfl
  emit he h := h.note (Event.moves_of_idle he)
  contents _ _ h := h.congr rfl rfl
  free {m} s q b k h := by
    rcases m.freeBlock_eq s q b k with hf | ⟨e, he, hf⟩
    · rw [hf]
      exact h.note rfl
    · have hreleased := h.giveUp (x := ⟨b, q, k.bytes, k.alignment⟩) (p := ⟨q, k, b⟩)
        (Nat.le_refl _)
      rw [hf]
      exact (hreleased.cache he).note rfl

theorem beginPass (h : Covers r m hand) (he : m.emulated? q = some e) :
    Covers r (m.setEmulated q e.beginPass) hand := by
  refine h.setEmulated he (fun _ => FreeLists.Sound.empty) (fun _ _ _ hspans => ?_)
    fun _ => Nat.le_refl _
  exact ⟨hspans.lent_le, Nat.le_trans (Nat.le_add_right _ _) hspans.room⟩

theorem releaseCached (h : Covers r m hand) (q : ResourceId) :
    Covers r (m.releaseCached q).2 hand := by
  refine (drainStable r hand).releaseCached
    (fun b bytes alignment hm => hm.giveBack q b bytes alignment) (fun _ _ hm => hm.note rfl)
    (fun e he => ?_) h
  exact h.beginPass he

theorem discard (h : Covers r m hand) (q : ResourceId) :
    Covers r { m with resources := m.resources.set q none } hand := by
  refine ⟨?_, ?_, ?_⟩
  · exact fun e he => h.sound e (Machine.emulated?_of_discard he).2
  · exact fun hf e he => h.covered hf e (Machine.emulated?_of_discard he).2
  · intro hf hle
    apply h.unborn hf
    rwa [← List.length_set]

theorem drop (h : Covers r m hand) (q : ResourceId) : Covers r (m.drop q) hand :=
  (drainStable r hand).drop (fun b bytes alignment hm => hm.giveBack q b bytes alignment)
    (fun _ _ hm => hm.note rfl) (h.discard q) h

/-- A new resource has empty free lists, and nobody has a block of it. -/
theorem create (h : Covers r m []) {x : Resource}
    (hx : ∀ e, x.emulated? = some e → e.free.Sound ∧ e.Spans 0) :
    Covers r (m.create x).2 [] := by
  refine ⟨?_, ?_, ?_⟩
  · intro e he
    rw [Machine.emulated?_create] at he
    split at he
    · exact (hx e he).1
    · exact h.sound e he
  · intro hf e he
    rw [Machine.emulated?_create] at he
    split at he
    · rename_i hr
      rw [show (m.create x).2.out [] = m.out [] from rfl, h.unborn hf (Nat.le_of_eq hr.symm)]
      exact (hx e he).2
    · exact h.covered hf e he
  · intro hf hle
    apply h.unborn hf
    unfold Machine.create at hle
    rw [List.length_append] at hle
    exact Nat.le_trans (Nat.le_add_right _ _) hle

theorem build (h : Covers r m []) (blueprint : Blueprint) : Covers r (m.build blueprint) [] := by
  cases blueprint with
  | emulated kind config =>
    have hlogged : Covers r (m.log (.resourceCreated kind config)) [] := h.note rfl
    apply hlogged.create
    rintro e ⟨⟩
    exact ⟨FreeLists.Sound.empty, Nat.le_refl _, Nat.zero_le _⟩
  | _ => exact h.create fun _ he => by cases he

/-- A block that is given up through a resource that takes it. -/
theorem taken (h : Covers r m []) {x : Loan} (hq : (m.resource? q).isSome = true)
    (ha : m.accepts q x.resource = true) (s : StreamId) :
    Taken False (Covers r) m q x s := by
  refine ⟨q, .inl rfl, ?_⟩
  obtain ⟨y, hy⟩ := Option.isSome_iff_exists.mp hq
  by_cases hr : q = r
  · subst hr
    rcases Machine.eq_or_plain ha with rfl | hn
    · exact h.giveUp (Nat.le_refl _)
    · exact of_plain (m := m.emit (.released x)) hn (Machine.lt_of_resource? hy)
  · apply h.giveUp
    rw [show Loan.share r (Parcel.loan ⟨q, ⟨s, x.bytes, x.alignment⟩, x.block⟩) = 0 from
      Loan.share_of_ne hr]
    exact Nat.zero_le _

theorem upkeep (r : ResourceId) (c : Call) : Upkeep Machine.Accepted False c (Covers r) where
  note he _ h := h.note (Event.moves_of_idle he)
  frame _ _ hr ht _ _ h := h.congr hr ht
  drain request s h := (drainStable r _).drain request s h
  reuse _ he hu h := (h.reuse he hu).note rfl
  refuse _ he hr h := h.refuse he hr
  fresh _ he hr hb h := (h.fresh he hr hb).note rfl
  cache he h := h.cache he
  pass _ _ h := h.releaseCached _
  drop _ _ h := h.drop _
  plainFresh _ hx hn hb h := by
    exact (h.takeBlock hb).holdPlain ((Machine.resource?_takeBlock hb _).trans hx) hn _ _ _
  plainReturn _ _ _ h := h.letGo.giveBack _ _ _ _
  build _ _ h := h.build _
  createStream {m} _ h := (h.note (v := .logged (.streamCreated m.streamCount)) rfl).congr rfl rfl
  enqueue {m s op} _ _ h := (h.note (v := .enqueued s op) rfl).congr rfl rfl
  releaseAsync hc hl hb h := by
    subst hc
    exact h.taken (Machine.isSome_resource?_of_backend? hb) hl _
  release hc hl hx h := by
    subst hc
    exact h.taken hx hl _

theorem call (h : Covers r m []) {c : Call} (hl : m.Accepted c) : Covers r (m.call c) [] :=
  (upkeep r c).call (fun _ hp => hp.lend) hl h

theorem run {cs : List Call} (h : Covers r m []) (ho : m.Obeys Machine.Accepted cs) :
    Covers r (m.run cs) [] :=
  Machine.run_induction (P := fun m => Covers r m []) (fun _ _ hl hm => hm.call hl) ho h

end Covers

end StreamMemory
