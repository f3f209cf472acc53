import StreamMemory.Proofs.Coverage
import Mathlib.Algebra.Order.Ring.Int

/-!
# Accounts that fit into sizes

A capacity is a size, and an emulated resource never accounts for more than its capacity: neither
the bytes in use and in the free lists, nor the bytes of its heap, of which some may have left the
free lists and are owed to the system. For this the bytes in use need not be told from what callers
have, as long as they cover it.
-/

set_option autoImplicit false

namespace StreamMemory

/-! ## One resource -/

/-- The accounts of a resource agree, whatever is lent. -/
def Emulated.Sized (e : Emulated) (owed : Nat) : Prop := e.Balanced e.live.current owed

namespace Emulated.Sized

variable {e e' : Emulated} {owed bytes : Nat} {k : BlockKey} {b : BlockId}

theorem of_balanced {lent : Nat} (h : e.Balanced lent owed) : e.Sized owed :=
  { h with lent := rfl }

theorem new (kind : MemoryKind) (config : Config) : Emulated.Sized { kind, config } 0 :=
  of_balanced (Balanced.new kind config)

theorem reuse (h : e.Sized owed) (hu : e.reuse? k = some (b, e')) : e'.Sized owed :=
  of_balanced (Balanced.reuse h hu)

theorem refuse (h : e.Sized owed) (hr : e.reserve? bytes = some e') :
    (e'.unreserve bytes).Sized owed :=
  of_balanced (Balanced.refuse h hr)

theorem fresh (h : e.Sized 0) (hr : e.reserve? bytes = some e') :
    (e'.allocated { allocated := e'.heap.allocated.add bytes, count := e'.heap.count + 1 }).Sized
      0 :=
  of_balanced (Balanced.fresh h hr)

/-- The bytes of a block that comes back must be in use. -/
theorem cache (h : e.Sized owed) (hk : k.bytes ≤ e.live.current) (b : BlockId) :
    (e.cache k b).Sized owed := by
  have hlent : e.Balanced (e.live.current - k.bytes + k.bytes) owed := by
    rw [Nat.sub_add_cancel hk]
    exact h
  exact of_balanced (hlent.cache b)

theorem beginPass (h : e.Sized 0) : e.beginPass.Sized (FreeLists.totalBytes e.free.lists) :=
  of_balanced (Balanced.beginPass h)

theorem giveBack (h : e.Sized (owed + bytes)) :
    Emulated.Sized { e with heap := e.heap.giveBack bytes } owed :=
  of_balanced (Balanced.giveBack h)

theorem footprint_lt (h : e.Sized owed) : e.live.current + e.free.cachedBytes < sizeLimit :=
  Nat.lt_of_le_of_lt h.room e.config.capacity_lt

/-- Outside of passes the heap accounts for what is in use and in the free lists. -/
theorem heap_eq (h : e.Sized 0) :
    e.heap.allocated.current = e.live.current + e.free.cachedBytes :=
  h.held

theorem heap_lt (h : e.Sized 0) : e.heap.allocated.current < sizeLimit :=
  h.heap_eq ▸ h.footprint_lt

end Emulated.Sized

/-! ## All resources -/

/-- The accounts of all emulated resources fit into sizes, and cover what is on loan. -/
structure Machine.Sized (m : Machine) (hand pass : List Parcel) : Prop where
  covers : ∀ r, Covers r m hand
  sized : FairReleases m.trace → ∀ r e, m.emulated? r = some e →
    e.Sized (total (Loan.share r) (pass.map Parcel.loan))

namespace Machine.Sized

variable {m m' : Machine} {hand hand' pass pass' : List Parcel} {q r : ResourceId}
variable {e e' : Emulated} {k : BlockKey} {b : BlockId}

theorem start (env : Environment) : (start env).Sized [] [] := by
  refine ⟨fun r => Covers.start r env, ?_⟩
  intro _ r e he
  simp [Machine.start, Machine.emulated?, Machine.resource?] at he

theorem congr (h : m.Sized hand pass) (hr : m'.resources = m.resources)
    (ht : m'.trace = m.trace) : m'.Sized hand pass := by
  refine ⟨fun r => (h.covers r).congr hr ht, fun hf r e he => ?_⟩
  rw [emulated?_congr hr] at he
  exact h.sized (ht ▸ hf) r e he

theorem note (h : m.Sized hand pass) {v : Event} (he : v.moves = false) :
    (m.emit v).Sized hand pass :=
  ⟨fun r => (h.covers r).note he, fun hf r e hr => h.sized hf.tail r e hr⟩

/-- A change of one resource, and of what that resource owes only. -/
theorem setResource (h : m.Sized hand pass) {x y : Resource} (hx : m.resource? q = some x)
    (hcovers : ∀ r, Covers r (m.setResource q y) hand')
    (hsized : FairReleases m.trace → ∀ f, y.emulated? = some f →
      f.Sized (total (Loan.share q) (pass'.map Parcel.loan)))
    (hpass : ∀ r, r ≠ q → total (Loan.share r) (pass'.map Parcel.loan) =
      total (Loan.share r) (pass.map Parcel.loan)) : (m.setResource q y).Sized hand' pass' := by
  refine ⟨hcovers, fun hf r f hr => ?_⟩
  rw [emulated?_setResource (lt_of_resource? hx)] at hr
  split at hr
  · rename_i hq
    rw [hq]
    exact hsized hf f hr
  · rename_i hq
    rw [hpass r hq]
    exact h.sized hf r f hr

theorem setEmulated (h : m.Sized hand pass) (he : m.emulated? q = some e)
    (hcovers : ∀ r, Covers r (m.setEmulated q e') hand')
    (hsized : FairReleases m.trace → e.Sized (total (Loan.share q) (pass.map Parcel.loan)) →
      e'.Sized (total (Loan.share q) (pass.map Parcel.loan))) :
    (m.setEmulated q e').Sized hand' pass := by
  refine h.setResource (emulated?_eq_some.mp he) hcovers ?_ fun _ _ => rfl
  rintro hf _ ⟨⟩
  exact hsized hf (h.sized hf q e he)

theorem shelve (h : m.Sized (⟨r, k, b⟩ :: hand) pass) (he : m.emulated? r = some e) :
    (m.setEmulated r (e.cache k b)).Sized hand pass :=
  h.setEmulated he (fun q => (h.covers q).shelve he)
    fun hf hs => hs.cache ((h.covers r).bytes_le hf he) b

theorem cache (h : m.Sized (⟨r, k, b⟩ :: hand) pass) (he : m.emulated? r = some e) :
    (m.cacheBlock r e b k).Sized hand pass :=
  ⟨fun q => (h.covers q).cache he, (h.shelve he).sized⟩

theorem giveUp (h : m.Sized hand pass) (p : Parcel) :
    (m.emit (.released p.loan)).Sized (p :: hand) pass :=
  ⟨fun r => (h.covers r).giveUp (Nat.le_refl _), fun hf r e he => h.sized hf.2 r e he⟩

theorem drainStable (hand pass : List Parcel) : DrainStable fun m => m.Sized hand pass where
  streams _ h := h.congr rfl rfl
  emit he h := h.note (Event.moves_of_idle he)
  contents _ _ h := h.congr rfl rfl
  free {m} s r b k h := by
    rcases m.freeBlock_eq s r b k with hf | ⟨e, he, hf⟩
    · rw [hf]
      exact h.note rfl
    · rw [hf]
      exact ((h.giveUp ⟨r, k, b⟩).cache he).note rfl

theorem takeBlock (h : m.Sized hand pass) {heap heap' : Heap} {bytes alignment : Nat}
    (hb : m.takeBlock q heap bytes alignment = .ok (b, heap', m')) : m'.Sized hand pass := by
  refine ⟨fun r => (h.covers r).takeBlock hb, fun hf r e he => ?_⟩
  rw [emulated?_takeBlock hb] at he
  exact h.sized (fairReleases_of_takeBlock hb hf) r e he

theorem beginPass (h : m.Sized hand []) (he : m.emulated? r = some e) :
    (m.setEmulated r e.beginPass).Sized hand (parcels r e.free.lists) := by
  refine h.setResource (emulated?_eq_some.mp he) ?_ ?_ ?_
  · exact fun q => (h.covers q).beginPass he
  · rintro hf _ ⟨⟩
    rw [total_share_parcels, if_pos rfl]
    exact (h.sized hf r e he).beginPass
  · intro q hq
    rw [total_share_parcels, if_neg (Ne.symm hq)]
    rfl

theorem discard (h : m.Sized hand []) {x : Resource} (hx : m.resource? r = some x) :
    Machine.Sized { m with resources := m.resources.set r none } hand (x.parcels r) := by
  refine ⟨fun q => (h.covers q).discard r, fun hf q f hq => ?_⟩
  obtain ⟨hne, hq'⟩ := emulated?_of_discard hq
  have howed : total (Loan.share q) ((x.parcels r).map Parcel.loan) = 0 := by
    cases x with
    | emulated e => exact (total_share_parcels q r e.free.lists).trans (if_neg hne)
    | _ => rfl
  rw [howed]
  exact h.sized hf q f hq'

/-- A block that a pass gives back is not owed any more. -/
theorem giveBack (h : m.Sized hand (⟨r, k, b⟩ :: pass)) :
    (m.giveBack r b k.bytes k.alignment).Sized hand pass := by
  have hm : (m.emit (.returned b (Heap.layout k.bytes k.alignment))).Sized hand
      (⟨r, k, b⟩ :: pass) :=
    ⟨fun q => (h.covers q).mono rfl fun hf => ⟨hf, Nat.le_refl _⟩, h.sized⟩
  have hother : ∀ q, q ≠ r → total (Loan.share q) (pass.map Parcel.loan) =
      total (Loan.share q) ((⟨r, k, b⟩ :: pass).map Parcel.loan) := by
    intro q hq
    rw [List.map_cons, total_cons, Loan.share_of_ne (Ne.symm hq), Nat.zero_add]
  have hcovers : ∀ q, Covers q (m.giveBack r b k.bytes k.alignment) hand :=
    fun q => (h.covers q).giveBack r b k.bytes k.alignment
  rcases m.giveBack_eq r b k.bytes k.alignment with ⟨hnone, hback⟩ | ⟨x, hx, hback⟩
  · rw [hback] at hcovers ⊢
    refine ⟨hcovers, fun hf q f hq => ?_⟩
    have hne : q ≠ r := by
      rintro rfl
      exact absurd (hnone.symm.trans (emulated?_eq_some.mp hq)) (by simp)
    rw [hother q hne]
    exact hm.sized hf q f hq
  · rw [hback] at hcovers ⊢
    refine hm.setResource hx hcovers (fun hf f hf' => ?_) hother
    cases x with
    | emulated e =>
      cases hf'
      have hs := hm.sized hf r e (emulated?_eq_some.mpr hx)
      have hshare : Loan.share r (Parcel.loan ⟨r, k, b⟩) = k.bytes := if_pos rfl
      rw [List.map_cons, total_cons, hshare, Nat.add_comm] at hs
      exact hs.giveBack
    | _ => cases hf'

theorem giveBackPlain {p : Parcel} (h : m.Sized (p :: hand) pass) {x : Resource}
    (hx : m.resource? r = some x) (hn : x.emulated? = none) :
    (m.giveBack r p.block p.key.bytes p.key.alignment).Sized hand pass := by
  have hcovers : ∀ q, Covers q (m.giveBack r p.block p.key.bytes p.key.alignment) hand :=
    fun q => (h.covers q).letGo.giveBack r _ _ _
  have hm : (m.emit (.returned p.block (Heap.layout p.key.bytes p.key.alignment))).Sized
      (p :: hand) pass :=
    ⟨fun q => (h.covers q).mono rfl fun hf => ⟨hf, Nat.le_refl _⟩, h.sized⟩
  rcases m.giveBack_eq r p.block p.key.bytes p.key.alignment with ⟨hnone, -⟩ | ⟨y, hy, hback⟩
  · exact absurd (hnone.symm.trans hx) (by simp)
  · obtain rfl : x = y := Option.some.inj (hx.symm.trans hy)
    rw [hback] at hcovers ⊢
    refine hm.setResource hx hcovers (fun _ f hf => ?_) fun _ _ => rfl
    rw [emulated?_setHeap hn] at hf
    cases hf

/-- A block that is given up through a resource that takes it. -/
theorem taken (h : m.Sized [] []) {x : Loan} (hr : (m.resource? r).isSome = true)
    (ha : m.accepts r x.resource = true) (s : StreamId) :
    Taken False (fun m hand => m.Sized hand []) m r x s := by
  refine ⟨r, .inl rfl, fun q => ?_, fun hf q e he => h.sized hf.2 q e he⟩
  obtain ⟨q', hq', hcovers⟩ := (h.covers q).taken hr ha s
  obtain rfl : q' = r := hq'.resolve_right And.left
  exact hcovers

theorem create (h : m.Sized hand []) {x : Resource} (hcovers : ∀ r, Covers r (m.create x).2 hand)
    (hx : ∀ e, x.emulated? = some e → e.Sized 0) : (m.create x).2.Sized hand [] := by
  refine ⟨hcovers, fun hf r e he => ?_⟩
  rw [emulated?_create] at he
  split at he
  · exact hx e he
  · exact h.sized hf r e he

end Machine.Sized

theorem custody_sized : Custody Machine.Accepted False Machine.Sized where
  note he _ h := h.note he
  frame _ hr ht _ _ h := h.congr hr ht
  drain request s h := (Machine.Sized.drainStable _ _).drain request s h
  reuse he hu h := h.setEmulated he (fun q => (h.covers q).reuse he hu) fun _ hs => hs.reuse hu
  refuse he hr h := h.setEmulated he (fun q => (h.covers q).refuse he hr) fun _ hs => hs.refuse hr
  fresh {m m' hand r heap b e e' k} he hr hb h := by
    have he' := (Machine.emulated?_takeBlock hb r).trans he
    have hcovers := fun q => (h.covers q).fresh he hr hb
    obtain ⟨-, rfl, -⟩ := Machine.takeBlock_eq_ok hb
    exact (h.takeBlock hb).setEmulated he' hcovers fun _ hs => hs.fresh hr
  cache he h := ⟨fun q => ((h.covers q).shelve he).mono rfl fun hf => ⟨hf, Nat.le_refl _⟩,
    (h.shelve he).sized⟩
  beginPass he h := h.beginPass he
  discard _ hx h := h.discard hx
  reorder hp h := ⟨h.covers, fun hf r e he => total_perm _ (hp.map Parcel.loan) ▸ h.sized hf r e he⟩
  releaseKey {_ hand _ _ _ lists} h :=
    Custody.releaseKey_of_giveBack (I := Machine.Sized) (fun he _ hn => hn.note he)
      (fun request s hn => (Machine.Sized.drainStable _ _).drain request s hn)
      (fun hn => hn.giveBack) hand lists h
  plainFresh {m m' hand pass r heap b x k} hx hn hb h := by
    have hx' := (Machine.resource?_takeBlock hb r).trans hx
    refine (h.takeBlock hb).setResource hx' ?_ ?_ fun _ _ => rfl
    · exact fun q => ((h.takeBlock hb).covers q).holdPlain hx' hn heap k b
    · intro _ f hf
      rw [Machine.emulated?_setHeap hn] at hf
      cases hf
  plainReturn hx hn _ h := h.giveBackPlain hx hn
  lend h := ⟨fun q => (h.covers q).lend, h.sized⟩
  build {m blueprint} _ h := by
    have hcovers := fun r => (h.covers r).build blueprint
    cases blueprint with
    | emulated kind config =>
      have hlogged : (m.log (.resourceCreated kind config)).Sized [] [] := h.note rfl
      apply hlogged.create hcovers
      rintro _ ⟨⟩
      exact Emulated.Sized.new kind config
    | _ => exact h.create hcovers fun _ he => by cases he
  enqueue {m s op} _ h := (h.note (v := .enqueued s op) rfl).congr rfl rfl
  releaseAsync hl hb h := h.taken (Machine.isSome_resource?_of_backend? hb) hl _
  release hl hx h := h.taken hx hl _

end StreamMemory
