import StreamMemory.Proofs.Coverage
import StreamMemory.Proofs.Reuse

/-!
# Exhaustion without passes

As long as a resource runs no release pass, blocks move between its callers and its free lists, but
none goes back to the system. The bytes in use and the cached bytes together grow by what is taken
from the system and never shrink. So a request that found no room, or that the heap refused, can be
served later only by a block that came back under its key.
-/

set_option autoImplicit false

namespace StreamMemory

/-! ## What becomes of a resource -/

/-- What becomes of a resource during some events if it runs no pass meanwhile. -/
structure Emulated.Grows (r : ResourceId) (e e' : Emulated) (news : List Event) : Prop where
  footprint : e'.footprint = e.footprint + total (Loan.share r) (obtained news)
  blocks : ∀ k, e.free.blocks k = [] → (∀ b, .cached r k b ∉ news) → e'.free.blocks k = []

namespace Emulated.Grows

variable {r : ResourceId} {e e' e'' : Emulated} {k : BlockKey} {b : BlockId}

theorem refl (e : Emulated) {news : List Event} (h : total (Loan.share r) (obtained news) = 0) :
    e.Grows r e news :=
  ⟨h.symm ▸ rfl, fun _ hk _ => hk⟩

theorem trans {news past : List Event} (h : e.Grows r e' past) (h' : e'.Grows r e'' news) :
    e.Grows r e'' (news ++ past) := by
  constructor
  · have hobtained : obtained (news ++ past) = obtained news ++ obtained past :=
      List.filterMap_append
    rw [h'.footprint, h.footprint, hobtained, total_append]
    omega
  · intro k hk hnews
    apply h'.blocks k
    · exact h.blocks k hk fun b hb => hnews b (List.mem_append_right _ hb)
    · exact fun b hb => hnews b (List.mem_append_left _ hb)

theorem heap (e : Emulated) (heap : Heap) {news : List Event}
    (h : total (Loan.share r) (obtained news) = 0) : e.Grows r { e with heap } news :=
  ⟨h.symm ▸ rfl, fun _ hk _ => hk⟩

theorem reuse (hs : e.free.Sound) (hroom : e.footprint ≤ e.config.capacity)
    (hu : e.reuse? k = some (b, e')) : e.Grows r e' [.logged (.reused k.stream k.bytes)] := by
  constructor
  · exact footprint_reuse hs hroom hu
  · intro l hl _
    obtain ⟨⟨b', g⟩, hpop, hbe⟩ := Option.map_eq_some_iff.mp hu
    cases hbe
    rw [FreeLists.blocks_pop hpop l] at hl
    split at hl
    · cases hl
    · exact hl

theorem refuse {bytes : Nat} (hr : e.reserve? bytes = some e') :
    e.Grows r (e'.unreserve bytes) [] := by
  have hfootprint := footprint_unreserve hr
  obtain ⟨rfl, -⟩ := reserve?_eq_some hr
  exact ⟨hfootprint, fun _ hk _ => hk⟩

theorem fresh (hr : e.reserve? k.bytes = some e') (heap : Heap) :
    e.Grows r (e'.allocated heap)
      [.logged (.allocated k.stream k.bytes), .obtained ⟨b, r, k.bytes, k.alignment⟩] := by
  have hfootprint := footprint_reserve hr
  have hshare : Loan.share r ⟨b, r, k.bytes, k.alignment⟩ = k.bytes := if_pos rfl
  obtain ⟨rfl, -⟩ := reserve?_eq_some hr
  refine ⟨?_, fun _ hk _ => hk⟩
  change _ = e.footprint + (Loan.share r ⟨b, r, k.bytes, k.alignment⟩ + 0)
  rw [hshare]
  exact hfootprint

/-- A block that comes back was counted as in use before. -/
theorem cache (hk : k.bytes ≤ e.live.current) {news : List Event}
    (hnews : total (Loan.share r) (obtained news) = 0) (hb : .cached r k b ∈ news) :
    e.Grows r (e.cache k b) news := by
  constructor
  · change e.live.current - k.bytes + (e.free.cachedBytes + k.bytes) =
      e.live.current + e.free.cachedBytes + total (Loan.share r) (obtained news)
    omega
  · intro l hl hnone
    change (e.free.push k b).blocks l = []
    rw [FreeLists.blocks_push, if_neg]
    · exact hl
    · rintro rfl
      exact hnone b hb

end Emulated.Grows

/-! ## Calls that start no pass of a resource -/

/-- A resource is as it became since some moment, when it was `e₀` and the trace was `past`. -/
structure Retains (r : ResourceId) (e₀ : Emulated) (past : List Event) (m : Machine)
    (hand : List Parcel) : Prop where
  covers : Covers r m hand
  there : m.Has r fun e => e.config = e₀.config
  grown : FairReleases m.trace → ∃ e news, m.emulated? r = some e ∧ m.trace = news ++ past ∧
    e₀.Grows r e news

/-- Whether a call starts a release pass of a resource, be it the last one. -/
def Call.empties (r : ResourceId) : Call → Bool
  | .releaseCached q | .drop q => q == r
  | _ => false

/-- What a call may be while a resource is left with what it has cached. -/
def Machine.Undisturbed (r : ResourceId) (m : Machine) (c : Call) : Prop :=
  m.Accepted c ∧ c.empties r = false

instance Machine.decidableUndisturbed (r : ResourceId) (m : Machine) (c : Call) :
    Decidable (m.Undisturbed r c) :=
  inferInstanceAs (Decidable (_ ∧ _))

namespace Retains

variable {m m' : Machine} {hand hand' : List Parcel} {q r : ResourceId} {e e' e₀ : Emulated}
variable {past : List Event} {k : BlockKey} {b : BlockId}

theorem start (hc : Covers r m []) (he : m.emulated? r = some e) :
    Retains r e m.trace m [] :=
  ⟨hc, ⟨e, he, rfl⟩, fun _ => ⟨e, [], he, rfl, .refl e rfl⟩⟩

theorem step (h : Retains r e₀ past m hand) (new : List Event) (hc : Covers r m' hand')
    (he : m.emulated? r = some e) (he' : m'.emulated? r = some e') (hconfig : e'.config = e.config)
    (ht : m'.trace = new ++ m.trace) (hg : FairReleases m.trace → e.Grows r e' new) :
    Retains r e₀ past m' hand' := by
  refine ⟨hc, ⟨e', he', hconfig.trans (h.there.of_some he)⟩, fun hf => ?_⟩
  have hpast : FairReleases m.trace := hf.of_suffix ⟨new, ht.symm⟩
  obtain ⟨f, news, hf', hnews, hgrown⟩ := h.grown hpast
  obtain rfl : e = f := Option.some.inj (he.symm.trans hf')
  refine ⟨e', new ++ news, he', ?_, hgrown.trans (hg hpast)⟩
  rw [ht, hnews, List.append_assoc]

/-- What leaves the resource alone, but for its heap. -/
theorem keep (h : Retains r e₀ past m hand) (new : List Event) (hc : Covers r m' hand')
    (he : ∀ e, m.emulated? r = some e → ∃ heap, m'.emulated? r = some { e with heap })
    (ht : m'.trace = new ++ m.trace) (hn : total (Loan.share r) (obtained new) = 0) :
    Retains r e₀ past m' hand' := by
  obtain ⟨e, hr, -⟩ := h.there
  obtain ⟨heap, hr'⟩ := he e hr
  exact h.step new hc hr hr' rfl ht fun _ => .heap e heap hn

theorem congr (h : Retains r e₀ past m hand) (new : List Event) (hc : Covers r m' hand')
    (hr : m'.resources = m.resources) (ht : m'.trace = new ++ m.trace)
    (hn : total (Loan.share r) (obtained new) = 0) : Retains r e₀ past m' hand' :=
  h.keep new hc (fun e he => ⟨e.heap, (Machine.emulated?_congr hr r).trans he⟩) ht hn

theorem note (h : Retains r e₀ past m hand) {v : Event} (he : v.moves = false) :
    Retains r e₀ past (m.emit v) hand :=
  h.congr [v] (h.covers.note he) rfl rfl (by rw [obtained_cons [] he]; rfl)

theorem cache (h : Retains r e₀ past m (⟨q, k, b⟩ :: hand)) (he : m.emulated? q = some e) :
    Retains r e₀ past (m.cacheBlock q e b k) hand := by
  have hset := Machine.emulated?_setEmulated he (e.cache k b)
  have hc := h.covers.cache he
  let new : List Event := [.logged (.freed k.stream k.bytes), .cached q k b]
  have ht : (m.cacheBlock q e b k).trace = new ++ m.trace := rfl
  by_cases hq : q = r
  · subst hq
    have hself : (m.cacheBlock q e b k).emulated? q = some (e.cache k b) :=
      (hset q).trans (if_pos rfl)
    refine h.step new hc he hself rfl ht fun hf => ?_
    exact .cache (h.covers.bytes_le hf he) rfl (List.mem_cons_of_mem _ (List.mem_singleton_self _))
  · refine h.keep new hc (fun f hf => ⟨f.heap, ?_⟩) ht rfl
    exact (hset r).trans ((if_neg (Ne.symm hq)).trans hf)

theorem giveUp (h : Retains r e₀ past m hand) {x : Loan} {p : Parcel}
    (hp : Covers r (m.emit (.released x)) (p :: hand)) :
    Retains r e₀ past (m.emit (.released x)) (p :: hand) :=
  h.congr [.released x] hp rfl rfl rfl

theorem giveBack (h : Retains r e₀ past m hand) (hc : Covers r m hand') (q : ResourceId)
    (b : BlockId) (bytes alignment : Nat) :
    Retains r e₀ past (m.giveBack q b bytes alignment) hand' := by
  refine h.keep [.returned b (Heap.layout bytes alignment)]
    (hc.giveBack q b bytes alignment) (fun e he => ?_) (m.trace_giveBack q b bytes alignment) rfl
  rcases m.giveBack_eq q b bytes alignment with ⟨-, hg⟩ | ⟨x, hx, hg⟩
  · rw [hg]
    exact ⟨e.heap, he⟩
  · rw [hg]
    have he' : (m.emit (.returned b (Heap.layout bytes alignment))).emulated? r = some e := he
    exact Machine.exists_emulated?_setHeap he' hx _

theorem drainStable (r : ResourceId) (e₀ : Emulated) (past : List Event) (hand : List Parcel) :
    DrainStable fun m => Retains r e₀ past m hand where
  streams _ h := h.congr [] (h.covers.congr rfl rfl) rfl rfl rfl
  emit he h := h.note (Event.moves_of_idle he)
  contents _ _ h := h.congr [] (h.covers.congr rfl rfl) rfl rfl rfl
  free {m} s q b k h := by
    rcases m.freeBlock_eq s q b k with hf | ⟨e, he, hf⟩
    · rw [hf]
      exact h.note rfl
    · have hreleased := h.giveUp (h.covers.giveUp (x := ⟨b, q, k.bytes, k.alignment⟩)
        (p := ⟨q, k, b⟩) (Nat.le_refl _))
      rw [hf]
      exact (hreleased.cache he).note rfl

theorem setEmulated_of_ne (h : Retains r e₀ past m hand) (hq : q ≠ r)
    (he : m.emulated? q = some e) (hc : Covers r (m.setEmulated q e') hand') :
    Retains r e₀ past (m.setEmulated q e') hand' := by
  refine h.keep [] hc (fun f hf => ⟨f.heap, ?_⟩) rfl rfl
  exact (Machine.emulated?_setEmulated he e' r).trans ((if_neg (Ne.symm hq)).trans hf)

theorem releaseCached_of_ne (h : Retains r e₀ past m hand) (hq : q ≠ r) :
    Retains r e₀ past (m.releaseCached q).2 hand := by
  refine (drainStable r e₀ past hand).releaseCached
    (fun b bytes alignment hm => hm.giveBack hm.covers q b bytes alignment)
    (fun _ _ hm => hm.note rfl) (fun e he => ?_) h
  exact h.setEmulated_of_ne hq he (h.covers.beginPass he)

theorem drop_of_ne (h : Retains r e₀ past m hand) (hq : q ≠ r) :
    Retains r e₀ past (m.drop q) hand := by
  refine (drainStable r e₀ past hand).drop
    (fun b bytes alignment hm => hm.giveBack hm.covers q b bytes alignment)
    (fun _ _ hm => hm.note rfl) ?_ h
  refine h.keep [] (h.covers.discard q) (fun f hf => ⟨f.heap, ?_⟩) rfl rfl
  exact (Machine.emulated?_set_of_ne hq m none).trans hf

theorem fresh (h : Retains r e₀ past m hand) (he : m.emulated? q = some e)
    (hr : e.reserve? k.bytes = some e') {heap : Heap}
    (hb : m.takeBlock q e'.heap k.bytes k.alignment = .ok (b, heap, m')) :
    Retains r e₀ past
      ((m'.setEmulated q (e'.allocated heap)).log (.allocated k.stream k.bytes))
      (⟨q, k, b⟩ :: hand) := by
  have hset := Machine.emulated?_setEmulated ((Machine.emulated?_takeBlock hb q).trans he)
    (e'.allocated heap)
  have hc := (h.covers.fresh he hr hb).note (v := .logged (.allocated k.stream k.bytes)) rfl
  let new : List Event :=
    [.logged (.allocated k.stream k.bytes), .obtained ⟨b, q, k.bytes, k.alignment⟩]
  have ht : ((m'.setEmulated q (e'.allocated heap)).log (.allocated k.stream k.bytes)).trace =
      new ++ m.trace := by
    obtain ⟨-, -, rfl⟩ := Machine.takeBlock_eq_ok hb
    rfl
  by_cases hq : q = r
  · subst hq
    refine h.step new hc he ((hset q).trans (if_pos rfl)) ?_ ht fun _ => .fresh hr heap
    obtain ⟨rfl, -⟩ := Emulated.reserve?_eq_some hr
    rfl
  · refine h.keep new hc (fun f hf => ⟨f.heap, ?_⟩) ht (Loan.share_of_ne hq)
    rw [← Machine.emulated?_takeBlock hb] at hf
    exact (hset r).trans ((if_neg (Ne.symm hq)).trans hf)

theorem reuse (h : Retains r e₀ past m hand) (he : m.emulated? q = some e)
    (hu : e.reuse? k = some (b, e')) :
    Retains r e₀ past ((m.setEmulated q e').log (.reused k.stream k.bytes))
      (⟨q, k, b⟩ :: hand) := by
  have hc := (h.covers.reuse he hu).note (v := .logged (.reused k.stream k.bytes)) rfl
  by_cases hq : q = r
  · subst hq
    refine h.step [.logged (.reused k.stream k.bytes)] hc he
      (Machine.emulated?_setEmulated_self he e') ?_ rfl fun hf =>
        .reuse (h.covers.sound e he) (h.covers.covered hf e he).room hu
    obtain ⟨⟨b', g⟩, -, hbe⟩ := Option.map_eq_some_iff.mp hu
    cases hbe
    rfl
  · have hset : Retains r e₀ past (m.setEmulated q e') (⟨q, k, b⟩ :: hand) :=
      h.setEmulated_of_ne hq he (h.covers.reuse he hu)
    exact hset.note rfl

theorem refuse (h : Retains r e₀ past m hand) (he : m.emulated? q = some e) {bytes : Nat}
    (hr : e.reserve? bytes = some e') :
    Retains r e₀ past (m.setEmulated q (e'.unreserve bytes)) hand := by
  have hc := h.covers.refuse he hr
  by_cases hq : q = r
  · subst hq
    refine h.step [] hc he (Machine.emulated?_setEmulated_self he _) ?_ rfl
      fun _ => .refuse hr
    obtain ⟨rfl, -⟩ := Emulated.reserve?_eq_some hr
    rfl
  · exact h.setEmulated_of_ne hq he hc

theorem holdPlain (h : Retains r e₀ past m hand) {x : Resource} (hx : m.resource? q = some x)
    (hn : x.emulated? = none) {heap : Heap}
    (hb : m.takeBlock q x.heap k.bytes k.alignment = .ok (b, heap, m')) :
    Retains r e₀ past (m'.setResource q (x.setHeap heap)) (⟨q, k, b⟩ :: hand) := by
  have hx' := (Machine.resource?_takeBlock hb q).trans hx
  have hc := (h.covers.takeBlock hb).holdPlain hx' hn heap k b
  have hne : q ≠ r := by
    rintro rfl
    obtain ⟨e, he, -⟩ := h.there
    cases Option.some.inj ((Machine.emulated?_eq_some.mp he).symm.trans hx)
    cases hn
  refine h.keep [.obtained ⟨b, q, k.bytes, k.alignment⟩] hc (fun f hf => ?_) ?_
    (Loan.share_of_ne hne)
  · exact Machine.exists_emulated?_setHeap ((Machine.emulated?_takeBlock hb r).trans hf) hx' heap
  · obtain ⟨-, -, rfl⟩ := Machine.takeBlock_eq_ok hb
    rfl

theorem build (h : Retains r e₀ past m []) (blueprint : Blueprint) :
    Retains r e₀ past (m.build blueprint) [] := by
  have hc := h.covers.build blueprint
  have hcreate : ∀ (n : Machine) (x : Resource) e, n.emulated? r = some e →
      (n.create x).2.emulated? r = some e := by
    intro n x e he
    have hlt := Machine.lt_of_resource? (Machine.emulated?_eq_some.mp he)
    rw [Machine.emulated?_create, if_neg (Nat.ne_of_lt hlt)]
    exact he
  cases blueprint with
  | emulated kind config =>
    refine h.keep [.logged (.resourceCreated kind config)] hc
      (fun e he => ⟨e.heap, ?_⟩) rfl rfl
    exact hcreate (m.log (.resourceCreated kind config)) _ e he
  | _ => exact h.keep [] hc (fun e he => ⟨e.heap, hcreate m _ e he⟩) rfl rfl

theorem taken (h : Retains r e₀ past m []) {x : Loan} {s : StreamId}
    (ht : Taken False (Covers r) m q x s) : Taken False (Retains r e₀ past) m q x s := by
  obtain ⟨p, hp, hc⟩ := ht
  exact ⟨p, hp, h.giveUp hc⟩

/-- A resource without reclaim runs a pass only when it is told to. -/
theorem upkeep (r : ResourceId) (e₀ : Emulated) (past : List Event)
    (hreclaim : e₀.config.reclaim = false) (c : Call) :
    Upkeep (Machine.Undisturbed r) False c (Retains r e₀ past) where
  note he _ h := h.note (Event.moves_of_idle he)
  frame _ _ hr ht _ _ h := h.congr [] (h.covers.congr hr ht) hr ht rfl
  drain request s h := (drainStable r e₀ past _).drain request s h
  reuse _ he hu h := h.reuse he hu
  refuse _ he hr h := h.refuse he hr
  fresh _ he hr hb h := h.fresh he hr hb
  cache he h := h.cache he
  pass {m hand q e} hc he h := by
    refine h.releaseCached_of_ne ?_
    rintro rfl
    rcases hc with ⟨rfl, hl⟩ | ⟨-, hreclaims⟩
    · simpa [Call.empties] using hl.2
    · rw [h.there.of_some he, hreclaim] at hreclaims
      cases hreclaims
  drop hc hl h := by
    subst hc
    exact h.drop_of_ne (by simpa [Call.empties] using hl.2)
  plainFresh _ hx hn hb h := h.holdPlain hx hn hb
  plainReturn _ _ _ h := h.giveBack h.covers.letGo _ _ _ _
  build _ _ h := h.build _
  createStream {m} hc h := by
    have hcovers := (Covers.upkeep r c).createStream hc h.covers
    exact h.congr [.logged (.streamCreated m.streamCount)] hcovers rfl rfl rfl
  enqueue {m s op} hc hl h := by
    have hcovers := (Covers.upkeep r c).enqueue hc hl.1 h.covers
    exact h.congr [.enqueued s op] hcovers rfl rfl rfl
  releaseAsync hc hl hb h := h.taken ((Covers.upkeep r c).releaseAsync hc hl.1 hb h.covers)
  release hc hl hx h := h.taken ((Covers.upkeep r c).release hc hl.1 hx h.covers)

theorem run {cs : List Call} (h : Retains r e₀ past m []) (hreclaim : e₀.config.reclaim = false)
    (ho : m.Obeys (Machine.Undisturbed r) cs) : Retains r e₀ past (m.run cs) [] := by
  refine Machine.run_induction (P := fun m => Retains r e₀ past m []) (fun m c hl hm => ?_) ho h
  exact (upkeep r e₀ past hreclaim c).call
    (fun _ hp => hp.congr [.lent _] hp.covers.lend rfl rfl rfl) hl hm

end Retains

/-! ## Requests that find no memory -/

namespace Machine

variable {m n : Machine} {r : ResourceId} {e f : Emulated} {k : BlockKey}

/-- What a request that ends in want of memory finds, if the resource runs no pass for it. -/
def Lacks (serves : Layout → Bool) (e : Emulated) (k : BlockKey) : Prop :=
  e.supports k.alignment = true ∧ e.free.blocks k = [] ∧
    (e.config.capacity < e.footprint + k.bytes ∨
      Heap.refusal? k.bytes k.alignment = none ∧
        serves (Heap.layout k.bytes k.alignment) = false)

theorem takeReserved_eq_outOfMemory_iff :
    (m.takeReserved r e k).1 = .error (.allocation k.bytes k.alignment .outOfMemory) ↔
      Heap.refusal? k.bytes k.alignment = none ∧
        m.environment.serves m.trace (Heap.layout k.bytes k.alignment) = false := by
  have hnever : Heap.refusal? k.bytes k.alignment ≠ some .outOfMemory := by
    unfold Heap.refusal?
    split
    · simp
    · split <;> simp
  unfold takeReserved takeBlock Heap.allocate SystemMemory.obtain?
  cases hr : Heap.refusal? k.bytes k.alignment with
  | some reason =>
    have hne : reason ≠ .outOfMemory := fun h => hnever (hr.trans (congrArg some h))
    simp [hne]
  | none => cases m.environment.serves m.trace (Heap.layout k.bytes k.alignment) <;> simp

theorem allocateAsync_eq_outOfMemory_iff (he : m.emulated? r = some e)
    (hreclaim : e.config.reclaim = false) :
    (m.allocateAsync r k).1 = .error (.allocation k.bytes k.alignment .outOfMemory) ↔
      Lacks (m.environment.serves m.trace) e k := by
  unfold allocateAsync Lacks
  rw [he]
  dsimp only
  cases hs : e.supports k.alignment with
  | false => simp
  | true =>
    rw [if_pos rfl]
    cases hu : e.reuse? k with
    | some u =>
      have hblocks : e.free.blocks k ≠ [] := (e.reuse?_isSome_iff k).mp (by rw [hu]; rfl)
      simp [hblocks]
    | none =>
      have hblocks : e.free.blocks k = [] :=
        (e.free.pop_eq_none_iff k).mp (Option.map_eq_none_iff.mp hu)
      cases hr : e.reserve? k.bytes with
      | none =>
        have hfull : e.config.capacity < e.footprint + k.bytes := by
          unfold Emulated.reserve? Emulated.fits at hr
          simpa using hr
        simp [hreclaim, outOfMemory, hblocks, hfull]
      | some e' =>
        obtain ⟨-, hfits⟩ := Emulated.reserve?_eq_some hr
        simp only [takeReserved_eq_outOfMemory_iff, hblocks, true_and, Nat.not_lt.mpr hfits,
          false_or]

/-- What a resource lacks, it lacks until a block comes back under the key. -/
theorem Lacks.grows {serves : Layout → Bool} {news : List Event} (h : Lacks serves e k)
    (hg : e.Grows r f news) (hconfig : f.config = e.config) (hnews : ∀ b, .cached r k b ∉ news) :
    Lacks serves f k := by
  obtain ⟨hs, hblocks, hlacks⟩ := h
  refine ⟨?_, hg.blocks k hblocks hnews, hlacks.imp_left fun hfull => ?_⟩
  · unfold Emulated.supports at hs ⊢
    rwa [hconfig]
  · rw [hconfig, hg.footprint]
    omega

/-- A resource without reclaim, from some moment on and as long as nobody starts a release pass of
it: the bytes in use and the cached bytes together grow by the bytes of the blocks that it takes
from the system. If the system serves a layout at all times or never, a request that ended in want
of memory does so again, whatever was served and given up meanwhile, unless a block came back under
its key, as it does when it is released on the stream of the key. -/
theorem exhaustion_lasts {env : Environment} {before segment : List Call} {r : ResourceId}
    {m n : Machine} {e : Emulated} (hm : m = (start env).run before) (hn : n = m.run segment)
    (hbefore : (start env).Obeys Accepted before) (hsegment : m.Obeys (Undisturbed r) segment)
    (hf : FairReleases n.trace) (he : m.emulated? r = some e)
    (hreclaim : e.config.reclaim = false) :
    ∃ f news, n.emulated? r = some f ∧ n.trace = news ++ m.trace ∧
      f.live.current + f.free.cachedBytes =
        e.live.current + e.free.cachedBytes + total (Loan.share r) (obtained news) ∧
      n.TakesBack r ∧
      ∀ serves, env.Steady serves → ∀ k : BlockKey,
        (m.allocateAsync r k).1 = .error (.allocation k.bytes k.alignment .outOfMemory) →
        (∀ b, .cached r k b ∉ news) →
        (n.allocateAsync r k).1 = .error (.allocation k.bytes k.alignment .outOfMemory) := by
  have hcovers : Covers r m [] := hm ▸ (Covers.start r env).run hbefore
  have hretains : Retains r e m.trace n [] :=
    hn ▸ (Retains.start hcovers he).run hreclaim hsegment
  obtain ⟨f, news, hf', hnews, hgrown⟩ := hretains.grown hf
  have hconfig : f.config = e.config := hretains.there.of_some hf'
  refine ⟨f, news, hf', hnews, hgrown.footprint, takesBack hf',
    fun serves henv k hlacks hnone => ?_⟩
  have hsteady (cs : List Call) : ((start env).run cs).environment.Steady serves :=
    ((custody_supplied serves).run (obeys_any _ cs) ⟨henv, by simp [start, obtained]⟩).steady
  have hsteadyₘ : m.environment.Steady serves := hm ▸ hsteady before
  have hsteadyₙ : n.environment.Steady serves := by
    rw [hn, hm, ← run_append]
    exact hsteady _
  rw [allocateAsync_eq_outOfMemory_iff he hreclaim, hsteadyₘ m.trace] at hlacks
  rw [allocateAsync_eq_outOfMemory_iff hf' (hconfig ▸ hreclaim), hsteadyₙ n.trace]
  exact hlacks.grows hgrown hconfig hnone

/-- A resource of 16 bytes with 8 bytes in use on one stream and 8 cached on another. -/
def strained : Machine :=
  (start {}).run [.build (.emulated .device (.of 16 8 false)),
    .allocateAsync 0 ⟨1, 8, 8⟩, .allocateAsync 0 ⟨2, 8, 8⟩, .releaseAsync 0 ⟨1, 0, 8, 8⟩ 2]

/-- A request fails, a block is given up, and another one is used again. -/
def struggle : List Call :=
  [.allocateAsync 0 ⟨1, 4, 8⟩, .releaseAsync 0 ⟨0, 0, 8, 8⟩ 1, .allocateAsync 0 ⟨2, 8, 8⟩]

/-- None of that makes room for four bytes. -/
theorem exhaustion_lasts_strained :
    (strained.allocateAsync 0 ⟨1, 4, 8⟩).1 = .error (.allocation 4 8 .outOfMemory) ∧
      ∃ f news, (strained.run struggle).emulated? 0 = some f ∧
        (strained.run struggle).trace = news ++ strained.trace ∧
        f.live.current + f.free.cachedBytes = 16 + total (Loan.share 0) (obtained news) ∧
        ((strained.run struggle).allocateAsync 0 ⟨1, 4, 8⟩).1 =
          .error (.allocation 4 8 .outOfMemory) := by
  have he : strained.emulated? 0 = some {
      kind := .device
      config := .of 16 8 false
      heap := ⟨⟨16, 16⟩, 2⟩
      free := ⟨[(⟨2, 8, 8⟩, [1])], 8⟩
      live := ⟨8, 16⟩
      allocations := 2 } := by
    decide
  have hlacks : (strained.allocateAsync 0 ⟨1, 4, 8⟩).1 = .error (.allocation 4 8 .outOfMemory) :=
    (allocateAsync_eq_outOfMemory_iff he rfl).mpr ⟨by decide, by decide, .inl (by decide)⟩
  have hbefore : strained = (start {}).run [.build (.emulated .device (.of 16 8 false)),
      .allocateAsync 0 ⟨1, 8, 8⟩, .allocateAsync 0 ⟨2, 8, 8⟩, .releaseAsync 0 ⟨1, 0, 8, 8⟩ 2] := rfl
  obtain ⟨f, news, hf, hnews, hgrown, -, hlasts⟩ :=
    exhaustion_lasts hbefore (rfl : _ = strained.run struggle) (by decide) (by decide) (by decide)
      he rfl
  refine ⟨hlacks, f, news, hf, hnews, hgrown,
    hlasts _ (fun _ => rfl) ⟨1, 4, 8⟩ hlacks fun b hb => ?_⟩
  have hnone : (strained.run struggle).trace.all fun
      | .cached _ k _ => k != ⟨1, 4, 8⟩
      | _ => true := by
    decide
  have hall := List.all_eq_true.mp hnone _ (hnews ▸ List.mem_append_left _ hb)
  simp at hall

end Machine

end StreamMemory
