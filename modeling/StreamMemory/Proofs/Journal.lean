import StreamMemory.Proofs.Coverage

/-!
# The log as an account

The log of a machine with one emulated resource tells what its statistics tell. Every block that was
taken from the system, used again or given up has its line, also where a synchronous request takes
back what it got; the lines add up to the bytes in use; and as many blocks of a stream and a size
came back before as were used again. A request that fails writes no such line of its own, but the
pass that it runs lets operations release blocks.
-/

set_option autoImplicit false

namespace StreamMemory

/-! ## Reading the log -/

namespace LogEntry

def allocated? : LogEntry → Option (StreamId × Nat)
  | allocated s bytes => some (s, bytes)
  | _ => none

def reused? : LogEntry → Option (StreamId × Nat)
  | reused s bytes => some (s, bytes)
  | _ => none

def freed? : LogEntry → Option (StreamId × Nat)
  | freed s bytes => some (s, bytes)
  | _ => none

def released? : LogEntry → Option (MemoryKind × Nat)
  | released kind bytes => some (kind, bytes)
  | _ => none

end LogEntry

/-- What the log entries of one sort say, the last one first. -/
def entries {α : Type} (read : LogEntry → Option α) (trace : List Event) : List α :=
  trace.filterMap fun e => e.entry?.bind read

def allocatedLines (trace : List Event) : List (StreamId × Nat) :=
  entries LogEntry.allocated? trace

def reusedLines (trace : List Event) : List (StreamId × Nat) :=
  entries LogEntry.reused? trace

def freedLines (trace : List Event) : List (StreamId × Nat) :=
  entries LogEntry.freed? trace

def releasedLines (trace : List Event) : List (MemoryKind × Nat) :=
  entries LogEntry.released? trace

/-- Whether an event is none of the log entries about blocks. -/
def Event.silent : Event → Bool
  | logged (.allocated ..) | logged (.reused ..) => false
  | logged (.freed ..) | logged (.released ..) => false
  | _ => true

theorem Event.silent_of_idle {e : Event} (h : e.idle = true) : e.silent = true := by
  cases e with
  | logged entry => cases entry <;> first | rfl | cases h
  | _ => rfl

theorem entries_cons {α : Type} {read : LogEntry → Option α}
    (hread : ∀ entry, (Event.logged entry).silent = true → read entry = none) {e : Event}
    (he : e.silent = true) (trace : List Event) :
    entries read (e :: trace) = entries read trace := by
  apply List.filterMap_cons_none
  cases e with
  | logged entry => exact hread entry he
  | _ => rfl

section Silent
variable {e : Event} (he : e.silent = true) (trace : List Event)
include he

theorem allocatedLines_cons : allocatedLines (e :: trace) = allocatedLines trace :=
  entries_cons (fun entry h => by cases entry <;> first | rfl | cases h) he trace

theorem reusedLines_cons : reusedLines (e :: trace) = reusedLines trace :=
  entries_cons (fun entry h => by cases entry <;> first | rfl | cases h) he trace

theorem freedLines_cons : freedLines (e :: trace) = freedLines trace :=
  entries_cons (fun entry h => by cases entry <;> first | rfl | cases h) he trace

theorem releasedLines_cons : releasedLines (e :: trace) = releasedLines trace :=
  entries_cons (fun entry h => by cases entry <;> first | rfl | cases h) he trace

end Silent

/-- At no time were more blocks of a stream and a size used again than had come back. -/
def Backed (trace : List Event) : Prop :=
  ∀ past, past <:+ trace →
    ∀ x, (reusedLines past).count x ≤ (freedLines past).count x

theorem Backed.cons {e : Event} {trace : List Event} (h : Backed trace)
    (he : ∀ x, (reusedLines (e :: trace)).count x ≤ (freedLines (e :: trace)).count x) :
    Backed (e :: trace) := by
  intro past hp
  rcases List.suffix_cons_iff.mp hp with rfl | hp
  · exact he
  · exact h past hp

theorem Backed.silent {e : Event} {trace : List Event} (h : Backed trace)
    (he : e.silent = true) : Backed (e :: trace) := by
  apply h.cons
  rw [reusedLines_cons he, freedLines_cons he]
  exact h trace (List.suffix_refl _)

/-! ## One resource -/

/-- The stream and the size of each cached block. -/
def Emulated.stored (e : Emulated) : List (StreamId × Nat) :=
  (parcels 0 e.free.lists).map fun p => (p.key.stream, p.key.bytes)

/-- The log tells of a resource what its statistics do, but for the passes whose line is due. -/
structure Emulated.Told (e : Emulated) (due : Nat) (trace : List Event) : Prop where
  allocated : (allocatedLines trace).length = e.allocations
  reused : (reusedLines trace).length = e.reuses
  released : (releasedLines trace).length + due = e.reclaims
  stored : ∀ x, (reusedLines trace).count x + e.stored.count x ≤
    (freedLines trace).count x
  balance : FairReleases trace → e.live.current + total Prod.snd (freedLines trace) =
    total Prod.snd (allocatedLines trace) + total Prod.snd (reusedLines trace)

namespace Emulated.Told

variable {e e' : Emulated} {due : Nat} {trace : List Event} {k : BlockKey} {b : BlockId}

theorem silent (h : e.Told due trace) {ev : Event} (he : ev.silent = true) :
    e.Told due (ev :: trace) := by
  constructor
  · rw [allocatedLines_cons he, h.allocated]
  · rw [reusedLines_cons he, h.reused]
  · rw [releasedLines_cons he, h.released]
  · rw [reusedLines_cons he, freedLines_cons he]
    exact h.stored
  · rw [allocatedLines_cons he, reusedLines_cons he, freedLines_cons he]
    exact fun hf => h.balance hf.tail

theorem new (kind : MemoryKind) (config : Config) {trace : List Event}
    (ha : allocatedLines trace = []) (hr : reusedLines trace = [])
    (hf : freedLines trace = []) (hd : releasedLines trace = []) :
    Told { kind, config } 0 trace := by
  refine ⟨by rw [ha]; rfl, by rw [hr]; rfl, by rw [hd]; rfl, ?_, ?_⟩
  · rw [hr, hf]
    exact fun x => Nat.le_refl _
  · rw [ha, hr, hf]
    exact fun _ => rfl

theorem heap (h : e.Told due trace) (heap : Heap) : Told { e with heap } due trace :=
  ⟨h.allocated, h.reused, h.released, h.stored, h.balance⟩

theorem reuse (h : e.Told due trace) (hs : e.free.Sound)
    (hroom : FairReleases trace → e.footprint ≤ e.config.capacity)
    (hu : e.reuse? k = some (b, e')) :
    e'.Told due (.logged (.reused k.stream k.bytes) :: trace) := by
  have hsum (hf : FairReleases trace) := sum_of_le (room_of_reuse hs (hroom hf) hu)
  obtain ⟨⟨b', g⟩, hpop, hbe⟩ := Option.map_eq_some_iff.mp hu
  cases hbe
  have hreused : reusedLines (.logged (.reused k.stream k.bytes) :: trace) =
      (k.stream, k.bytes) :: reusedLines trace := rfl
  have hstored := (FreeLists.parcels_pop hs hpop 0).map fun p => (p.key.stream, p.key.bytes)
  refine ⟨h.allocated, congrArg (· + 1) h.reused, h.released, fun x => ?_, fun hf => ?_⟩
  · have hbefore := h.stored x
    unfold Emulated.stored at hbefore ⊢
    rw [hstored.count_eq, List.map_cons, List.count_cons] at hbefore
    rw [hreused, List.count_cons]
    change _ ≤ (freedLines trace).count x
    dsimp only at hbefore ⊢
    omega
  · have hbefore := h.balance hf
    rw [hreused, total_cons, Gauge.current_add, hsum hf]
    change e.live.current + k.bytes + total Prod.snd (freedLines trace) =
      total Prod.snd (allocatedLines trace) +
        (k.bytes + total Prod.snd (reusedLines trace))
    omega

theorem refuse (h : e.Told due trace) {bytes : Nat} (hr : e.reserve? bytes = some e') :
    (e'.unreserve bytes).Told due trace := by
  have hcurrent := current_unreserve hr
  obtain ⟨rfl, -⟩ := reserve?_eq_some hr
  refine ⟨h.allocated, h.reused, h.released, h.stored, fun hf => ?_⟩
  rw [hcurrent]
  exact h.balance hf

theorem fresh (h : e.Told due trace) (hr : e.reserve? k.bytes = some e') (heap : Heap) (x : Loan) :
    (e'.allocated heap).Told due
      (.logged (.allocated k.stream k.bytes) :: .obtained x :: trace) := by
  obtain ⟨rfl, hfits⟩ := reserve?_eq_some hr
  refine ⟨congrArg (· + 1) h.allocated, h.reused, h.released, h.stored, fun hf => ?_⟩
  have hbefore := h.balance hf
  change e.live.sum k.bytes + total Prod.snd (freedLines trace) =
    k.bytes + total Prod.snd (allocatedLines trace) + total Prod.snd (reusedLines trace)
  rw [sum_of_fits hfits]
  omega

theorem cache (h : e.Told due trace) (hk : FairReleases trace → k.bytes ≤ e.live.current)
    (r : ResourceId) (b : BlockId) :
    (e.cache k b).Told due (.logged (.freed k.stream k.bytes) :: .cached r k b :: trace) := by
  have hfreed : freedLines (.logged (.freed k.stream k.bytes) :: .cached r k b :: trace) =
      (k.stream, k.bytes) :: freedLines trace := rfl
  have hstored := (e.free.parcels_push k b 0).map fun p => (p.key.stream, p.key.bytes)
  refine ⟨h.allocated, h.reused, h.released, fun x => ?_, fun hf => ?_⟩
  · have hbefore := h.stored x
    unfold Emulated.stored at hbefore ⊢
    unfold Emulated.cache
    rw [hstored.count_eq, List.map_cons, List.count_cons, hfreed, List.count_cons]
    change (reusedLines trace).count x + _ ≤ _
    dsimp only at hbefore ⊢
    omega
  · have hbefore := h.balance hf
    have hbytes := hk hf
    rw [hfreed, total_cons]
    change e.live.current - k.bytes + (k.bytes + total Prod.snd (freedLines trace)) =
      total Prod.snd (allocatedLines trace) + total Prod.snd (reusedLines trace)
    omega

theorem beginPass (h : e.Told 0 trace) : e.beginPass.Told 1 trace := by
  refine ⟨h.allocated, h.reused, congrArg (· + 1) h.released, fun x => ?_, h.balance⟩
  exact Nat.le_trans (Nat.add_le_add_left (Nat.zero_le _) _) (h.stored x)

theorem endPass (h : e.Told 1 trace) (kind : MemoryKind) (bytes : Nat) :
    e.Told 0 (.logged (.released kind bytes) :: trace) :=
  ⟨h.allocated, h.reused, h.released, h.stored, h.balance⟩

end Emulated.Told

/-! ## A machine with one emulated resource -/

/-- The log of a machine is an account of its only emulated resource. -/
structure Journaled (r : ResourceId) (due : Nat) (m : Machine) (hand : List Parcel) : Prop where
  covers : Covers r m hand
  alone : ∀ q, q ≠ r → m.emulated? q = none
  told : ∀ e, m.emulated? r = some e → e.Told due m.trace
  backed : Backed m.trace
  unborn : m.resources.length ≤ r → allocatedLines m.trace = [] ∧ reusedLines m.trace = [] ∧
    freedLines m.trace = [] ∧ releasedLines m.trace = []

namespace Call

def drops (r : ResourceId) : Call → Bool
  | .drop q => q == r
  | _ => false

def emulates : Call → Bool
  | .build (.emulated ..) => true
  | _ => false

end Call

/-- No emulated resource is created but `r`, and it is not dropped. -/
def Machine.Sole (r : ResourceId) (m : Machine) (c : Call) : Prop :=
  m.Accepted c ∧ c.drops r = false ∧ (c.emulates = true → m.resources.length = r)

instance Machine.decidableSole (r : ResourceId) (m : Machine) (c : Call) :
    Decidable (m.Sole r c) :=
  inferInstanceAs (Decidable (_ ∧ _))

namespace Journaled

variable {m m' : Machine} {hand hand' : List Parcel} {q r : ResourceId} {due due' : Nat}
variable {e e' : Emulated} {k : BlockKey} {b : BlockId}

theorem start (r : ResourceId) (env : Environment) :
    Journaled r 0 (Machine.start env) [] := by
  have hnone : ∀ q, (Machine.start env).emulated? q = none := fun q => by
    simp [Machine.start, Machine.emulated?, Machine.resource?]
  refine ⟨Covers.start r env, fun q _ => hnone q, ?_, ?_, fun _ => ⟨rfl, rfl, rfl, rfl⟩⟩
  · intro e he
    cases (hnone r).symm.trans he
  · intro past hp x
    rw [List.eq_nil_of_suffix_nil hp]
    exact Nat.le_refl _

theorem eq_of_some (h : Journaled r due m hand) (he : m.emulated? q = some e) : q = r := by
  apply Classical.byContradiction
  intro hq
  cases (h.alone q hq).symm.trans he

theorem congr (h : Journaled r due m hand) (hc : Covers r m' hand')
    (hr : m'.resources = m.resources) (ht : m'.trace = m.trace) : Journaled r due m' hand' := by
  have he : ∀ q, m'.emulated? q = m.emulated? q := Machine.emulated?_congr hr
  refine ⟨hc, fun q hq => (he q).trans (h.alone q hq), fun e hs => ?_, ht ▸ h.backed, ?_⟩
  · rw [ht]
    exact h.told e ((he r).symm.trans hs)
  · rw [hr, ht]
    exact h.unborn

theorem emit (h : Journaled r due m hand) {v : Event} (hs : v.silent = true)
    (hc : Covers r (m.emit v) hand') : Journaled r due (m.emit v) hand' := by
  refine ⟨hc, h.alone, fun e he => (h.told e he).silent hs, h.backed.silent hs, fun hle => ?_⟩
  change allocatedLines (v :: m.trace) = [] ∧ reusedLines (v :: m.trace) = [] ∧
    freedLines (v :: m.trace) = [] ∧ releasedLines (v :: m.trace) = []
  rw [allocatedLines_cons hs, reusedLines_cons hs, freedLines_cons hs, releasedLines_cons hs]
  exact h.unborn hle

theorem note (h : Journaled r due m hand) {v : Event} (he : v.idle = true) :
    Journaled r due (m.emit v) hand :=
  h.emit (Event.silent_of_idle he) (h.covers.note (Event.moves_of_idle he))

/-- A change of the emulated resource that the log keeps up with. -/
theorem update (h : Journaled r due m hand) (he : m.emulated? r = some e)
    (hc : Covers r m' hand') (hr : m'.resources = (m.setEmulated r e').resources)
    (hb : Backed m'.trace) (ht : e'.Told due' m'.trace) : Journaled r due' m' hand' := by
  have hset : ∀ q, m'.emulated? q = if q = r then some e' else m.emulated? q := fun q => by
    rw [← Machine.emulated?_setEmulated he]
    exact Machine.emulated?_congr hr q
  refine ⟨hc, fun q hq => ?_, fun f hf => ?_, hb, fun hle => ?_⟩
  · rw [hset, if_neg hq]
    exact h.alone q hq
  · rw [hset, if_pos rfl] at hf
    cases hf
    exact ht
  · have hlt := Machine.lt_of_resource? (Machine.emulated?_eq_some.mp he)
    rw [hr] at hle
    exact absurd (Nat.lt_of_lt_of_eq hlt List.length_set.symm) (Nat.not_lt.mpr hle)

theorem setPlain (h : Journaled r due m hand) {x y : Resource} (hx : m.resource? q = some x)
    (hy : y.emulated? = none) (hc : Covers r (m.setResource q y) hand') :
    Journaled r due (m.setResource q y) hand' := by
  have hset := Machine.emulated?_setResource (Machine.lt_of_resource? hx) y
  refine ⟨hc, fun p hp => ?_, fun e he => ?_, h.backed, fun hle => ?_⟩
  · rw [hset]
    split
    · exact hy
    · exact h.alone p hp
  · rw [hset] at he
    split at he
    · cases hy.symm.trans he
    · exact h.told e he
  · exact h.unborn (by rwa [← List.length_set])

theorem giveBack (h : Journaled r due m hand) (hc : Covers r m hand') (q : ResourceId)
    (b : BlockId) (bytes alignment : Nat) :
    Journaled r due (m.giveBack q b bytes alignment) hand' := by
  have hgiven := hc.giveBack q b bytes alignment
  have hback := h.emit (v := .returned b (Heap.layout bytes alignment)) rfl
    (h.covers.mono rfl fun hf => ⟨hf, Nat.le_refl _⟩)
  rcases m.giveBack_eq q b bytes alignment with ⟨-, hg⟩ | ⟨x, hx, hg⟩
  · rw [hg] at hgiven ⊢
    exact h.emit rfl hgiven
  · rw [hg] at hgiven ⊢
    cases x with
    | emulated f =>
      have hf := Machine.emulated?_eq_some.mpr hx
      obtain rfl := h.eq_of_some hf
      exact hback.update hf hgiven rfl hback.backed ((hback.told f hf).heap _)
    | _ => exact hback.setPlain hx rfl hgiven

theorem takeBlock (h : Journaled r due m hand) {heap heap' : Heap} {bytes alignment : Nat}
    (hb : m.takeBlock q heap bytes alignment = .ok (b, heap', m')) : Journaled r due m' hand := by
  have hc := h.covers.takeBlock hb
  obtain ⟨-, -, rfl⟩ := Machine.takeBlock_eq_ok hb
  exact (h.emit (v := .obtained ⟨_, q, bytes, alignment⟩) rfl (hc.congr rfl rfl)).congr hc rfl rfl

theorem reuse (h : Journaled r due m hand) (he : m.emulated? q = some e)
    (hu : e.reuse? k = some (b, e')) :
    Journaled r due ((m.setEmulated q e').log (.reused k.stream k.bytes)) (⟨q, k, b⟩ :: hand) := by
  obtain rfl := h.eq_of_some he
  have hc := (h.covers.reuse he hu).note (v := .logged (.reused k.stream k.bytes)) rfl
  have ht := (h.told e he).reuse (h.covers.sound e he)
    (fun hf => (h.covers.covered hf e he).room) hu
  refine h.update he hc rfl (h.backed.cons fun x => ?_) ht
  exact Nat.le_trans (Nat.le_add_right _ _) (ht.stored x)

theorem refuse (h : Journaled r due m hand) (he : m.emulated? q = some e) {bytes : Nat}
    (hr : e.reserve? bytes = some e') :
    Journaled r due (m.setEmulated q (e'.unreserve bytes)) hand := by
  obtain rfl := h.eq_of_some he
  exact h.update he (h.covers.refuse he hr) rfl h.backed ((h.told e he).refuse hr)

theorem fresh (h : Journaled r due m hand) (he : m.emulated? q = some e)
    (hr : e.reserve? k.bytes = some e') {heap : Heap}
    (hb : m.takeBlock q e'.heap k.bytes k.alignment = .ok (b, heap, m')) :
    Journaled r due ((m'.setEmulated q (e'.allocated heap)).log (.allocated k.stream k.bytes))
      (⟨q, k, b⟩ :: hand) := by
  obtain rfl := h.eq_of_some he
  have hc := (h.covers.fresh he hr hb).note (v := .logged (.allocated k.stream k.bytes)) rfl
  obtain ⟨-, -, rfl⟩ := Machine.takeBlock_eq_ok hb
  have hobtained : Backed (.obtained ⟨b, q, k.bytes, k.alignment⟩ :: m.trace) :=
    h.backed.silent rfl
  refine h.update he hc rfl (hobtained.cons fun x => ?_) ((h.told e he).fresh hr heap _)
  exact hobtained _ (List.suffix_refl _) x

theorem cache (h : Journaled r due m (⟨q, k, b⟩ :: hand)) (he : m.emulated? q = some e) :
    Journaled r due (m.cacheBlock q e b k) hand := by
  obtain rfl := h.eq_of_some he
  have ht := (h.told e he).cache (k := k) (fun hf => ?_) q b
  · have hcached : Backed (.cached q k b :: m.trace) := h.backed.silent rfl
    refine h.update he (h.covers.cache he) rfl (hcached.cons fun x => ?_) ht
    exact Nat.le_trans (Nat.le_add_right _ _) (ht.stored x)
  · exact h.covers.bytes_le hf he

theorem drainStable (r : ResourceId) (due : Nat) (hand : List Parcel) :
    DrainStable fun m => Journaled r due m hand where
  streams _ h := h.congr (h.covers.congr rfl rfl) rfl rfl
  emit he h := h.note he
  contents _ _ h := h.congr (h.covers.congr rfl rfl) rfl rfl
  free {m} s q b k h := by
    rcases m.freeBlock_eq s q b k with hf | ⟨e, he, hf⟩
    · rw [hf]
      exact h.note rfl
    · have hreleased := h.emit (v := .released ⟨b, q, k.bytes, k.alignment⟩) rfl
        (h.covers.giveUp (p := ⟨q, k, b⟩) (Nat.le_refl _))
      rw [hf]
      exact (hreleased.cache he).note rfl

theorem endPass (h : Journaled r 1 m hand) (he : m.emulated? r = some e) (kind : MemoryKind)
    (bytes : Nat) : Journaled r 0 (m.log (.released kind bytes)) hand := by
  refine ⟨h.covers.note rfl, h.alone, fun f hf => (h.told f hf).endPass kind bytes, ?_,
    fun hle => ?_⟩
  · exact h.backed.cons (h.backed m.trace (List.suffix_refl _))
  · exact absurd (Machine.lt_of_resource? (Machine.emulated?_eq_some.mp he)) (Nat.not_lt.mpr hle)

theorem releaseCached (h : Journaled r 0 m hand) (q : ResourceId) :
    Journaled r 0 (m.releaseCached q).2 hand := by
  unfold Machine.releaseCached
  split
  · exact h
  · rename_i e he
    obtain rfl := h.eq_of_some he
    have hbegun : Journaled q 1 (m.setEmulated q e.beginPass) hand :=
      h.update he (h.covers.beginPass he) rfl h.backed (h.told e he).beginPass
    have hpassed := (drainStable q 1 hand).releaseLists (r := q)
      (fun b bytes alignment hm => hm.giveBack hm.covers q b bytes alignment)
      (m.arrange e.free.lists) hbegun
    have hquiet : Emulated.Quiet fun _ => True :=
      ⟨fun _ _ _ => trivial, fun _ _ _ _ => trivial, fun _ _ => trivial⟩
    have hthere : (m.setEmulated q e.beginPass).Has q fun _ => True :=
      ⟨_, Machine.emulated?_setEmulated_self he _, trivial⟩
    obtain ⟨f, hf, -⟩ := hthere.releaseLists hquiet q (m.arrange e.free.lists)
    exact hpassed.endPass hf e.kind _

/-- Another resource than the emulated one has nothing to give back when it is dropped. -/
theorem drop_of_ne (h : Journaled r due m hand) (hq : q ≠ r) : Journaled r due (m.drop q) hand := by
  have hgone : Journaled r due { m with resources := m.resources.set q none } hand := by
    refine ⟨h.covers.discard q, fun p hp => ?_, fun e he => ?_, h.backed, fun hle => ?_⟩
    · apply Option.eq_none_iff_forall_ne_some.mpr
      intro e he
      exact absurd ((h.alone p hp).symm.trans (Machine.emulated?_of_discard he).2) (by simp)
    · exact h.told e (Machine.emulated?_of_discard he).2
    · exact h.unborn (by rwa [← List.length_set])
  unfold Machine.drop
  split
  · exact h
  · rename_i x hx
    have hnone := h.alone q hq
    unfold Machine.emulated? at hnone
    rw [hx] at hnone
    change x.emulated? = none at hnone
    dsimp only
    rw [hnone]
    exact hgone

theorem build (h : Journaled r 0 m []) {blueprint : Blueprint}
    (hl : (Call.build blueprint).emulates = true → m.resources.length = r) :
    Journaled r 0 (m.build blueprint) [] := by
  have hc := h.covers.build blueprint
  have hplain : ∀ x : Resource, x.emulated? = none → Covers r (m.create x).2 [] →
      Journaled r 0 (m.create x).2 [] := by
    intro x hx hcovers
    refine ⟨hcovers, fun q hq => ?_, fun e he => ?_, h.backed, fun hle => h.unborn ?_⟩
    · rw [Machine.emulated?_create]
      split
      · exact hx
      · exact h.alone q hq
    · rw [Machine.emulated?_create] at he
      split at he
      · cases hx.symm.trans he
      · exact h.told e he
    · unfold Machine.create at hle
      rw [List.length_append] at hle
      exact Nat.le_trans (Nat.le_add_right _ _) hle
  cases blueprint with
  | emulated kind config =>
    have hr : m.resources.length = r := hl rfl
    have hlogged : Journaled r 0 (m.log (.resourceCreated kind config)) [] := h.note rfl
    obtain ⟨ha, hu, hf, hd⟩ := hlogged.unborn (Nat.le_of_eq hr)
    refine ⟨hc, fun q hq => ?_, fun e he => ?_, hlogged.backed, fun hle => ?_⟩
    · refine (Machine.emulated?_create _ _ q).trans ?_
      rw [if_neg fun hlen => hq (hlen.trans hr)]
      exact hlogged.alone q hq
    · have hnew := (Machine.emulated?_create (m.log (.resourceCreated kind config))
        (.emulated { kind, config }) r).trans (if_pos hr.symm)
      cases hnew.symm.trans he
      exact .new kind config ha hu hf hd
    · exact hlogged.unborn (Nat.le_of_eq hr)
  | _ => exact hplain _ rfl hc

theorem taken (h : Journaled r due m []) {x : Loan} {s : StreamId}
    (ht : Taken False (Covers r) m q x s) : Taken False (Journaled r due) m q x s := by
  obtain ⟨p, hp, hc⟩ := ht
  exact ⟨p, hp, h.emit rfl hc⟩

theorem upkeep (r : ResourceId) (c : Call) :
    Upkeep (Machine.Sole r) False c (Journaled r 0) where
  note he _ h := h.note he
  frame _ _ hr ht _ _ h := h.congr (h.covers.congr hr ht) hr ht
  drain request s h := (drainStable r 0 _).drain request s h
  reuse _ he hu h := h.reuse he hu
  refuse _ he hr h := h.refuse he hr
  fresh _ he hr hb h := h.fresh he hr hb
  cache he h := h.cache he
  pass _ _ h := h.releaseCached _
  drop hc hl h := by
    subst hc
    exact h.drop_of_ne (by simpa [Call.drops] using hl.2.1)
  plainFresh {m m' hand q heap b x k} _ hx hn hb h := by
    have hx' := (Machine.resource?_takeBlock hb q).trans hx
    exact (h.takeBlock hb).setPlain hx' (Machine.emulated?_setHeap hn heap)
      ((h.covers.takeBlock hb).holdPlain hx' hn heap k b)
  plainReturn _ _ _ h := h.giveBack h.covers.letGo _ _ _ _
  build hc hl h := by
    subst hc
    exact h.build hl.2.2
  createStream {m} hc h := by
    have hlogged := h.emit (v := .logged (.streamCreated m.streamCount)) rfl (h.covers.note rfl)
    exact hlogged.congr ((Covers.upkeep r c).createStream hc h.covers) rfl rfl
  enqueue {m s op} hc hl h := by
    have hnoted := h.note (v := .enqueued s op) rfl
    exact hnoted.congr ((Covers.upkeep r c).enqueue hc hl.1 h.covers) rfl rfl
  releaseAsync hc hl hb h := h.taken ((Covers.upkeep r c).releaseAsync hc hl.1 hb h.covers)
  release hc hl hx h := h.taken ((Covers.upkeep r c).release hc hl.1 hx h.covers)

theorem run {cs : List Call} (h : Journaled r 0 m []) (ho : m.Obeys (Machine.Sole r) cs) :
    Journaled r 0 (m.run cs) [] := by
  refine Machine.run_induction (P := fun m => Journaled r 0 m []) (fun m c hl hm => ?_) ho h
  exact (upkeep r c).call (fun _ hp => hp.emit rfl hp.covers.lend) hl hm

end Journaled

/-! ## Requests that fail -/

/-- Since some moment no blocks were taken or used again, and each block that was given up has its
line. Nothing else was written at the level of these lines. -/
def Muted (past : List Event) (m : Machine) : Prop :=
  ∃ news, m.trace = news ++ past ∧
    (∀ entry, .logged entry ∈ news → entry.level = .trace → ∃ s bytes, entry = .freed s bytes) ∧
    (freedLines news).length = (releases news).length

namespace Muted

variable {past : List Event} {m m' : Machine}

theorem start (m : Machine) : Muted m.trace m :=
  ⟨[], rfl, fun _ h => (by cases h), rfl⟩

theorem congr (h : Muted past m) (ht : m'.trace = m.trace) : Muted past m' := by
  unfold Muted
  rw [ht]
  exact h

theorem emit (h : Muted past m) {ev : Event} (hs : ev.silent = true)
    (hlevel : ∀ entry, ev = .logged entry → entry.level ≠ .trace)
    (hreleases : ∀ trace, releases (ev :: trace) = releases trace) : Muted past (m.emit ev) := by
  obtain ⟨news, ht, hentries, hcount⟩ := h
  refine ⟨ev :: news, congrArg (ev :: ·) ht, fun entry he hl => ?_, ?_⟩
  · rcases List.mem_cons.mp he with he | he
    · exact absurd hl (hlevel entry he.symm)
    · exact hentries entry he hl
  · rw [freedLines_cons hs, hreleases, hcount]

theorem note (h : Muted past m) {ev : Event} (he : ev.idle = true) : Muted past (m.emit ev) := by
  refine h.emit (Event.silent_of_idle he) ?_ ?_
  · rintro entry rfl
    cases entry <;> simp [Event.idle, LogEntry.deed, LogEntry.level] at he ⊢
  · intro trace
    cases ev <;> first | rfl | cases he

theorem free (h : Muted past m) (r : ResourceId) (e : Emulated) (b : BlockId) (k : BlockKey)
    (x : Loan) : Muted past ((m.emit (.released x)).cacheBlock r e b k) := by
  obtain ⟨news, ht, hentries, hcount⟩ := h
  refine ⟨.logged (.freed k.stream k.bytes) :: .cached r k b :: .released x :: news, ?_,
    fun entry he hl => ?_, congrArg (· + 1) hcount⟩
  · change .logged (.freed k.stream k.bytes) :: .cached r k b :: .released x :: m.trace = _
    rw [ht]
    rfl
  rcases List.mem_cons.mp he with he | he
  · cases he
    exact ⟨_, _, rfl⟩
  · simp only [List.mem_cons, reduceCtorEq, false_or] at he
    exact hentries entry he hl

theorem drainStable (past : List Event) : DrainStable (Muted past) where
  streams _ h := h.congr rfl
  emit he h := h.note he
  contents _ _ h := h.congr rfl
  free {m} s r b k h := by
    rcases m.freeBlock_eq s r b k with hf | ⟨e, -, hf⟩
    · rw [hf]
      exact h.note rfl
    · rw [hf]
      exact (h.free r e b k _).note rfl

theorem giveBack (h : Muted past m) (r : ResourceId) (b : BlockId) (bytes alignment : Nat) :
    Muted past (m.giveBack r b bytes alignment) := by
  have hback : Muted past (m.emit (.returned b (Heap.layout bytes alignment))) :=
    h.emit rfl (fun _ he => by cases he) fun _ => rfl
  exact hback.congr (m.trace_giveBack r b bytes alignment)

/-- The line at the end of a pass stands at another level. -/
theorem endPass (h : Muted past m) (kind : MemoryKind) (bytes : Nat) :
    Muted past (m.log (.released kind bytes)) := by
  obtain ⟨news, ht, hentries, hcount⟩ := h
  refine ⟨.logged (.released kind bytes) :: news, congrArg (_ :: ·) ht, fun entry he hl => ?_,
    hcount⟩
  rcases List.mem_cons.mp he with he | he
  · cases he
    cases hl
  · exact hentries entry he hl

theorem releaseCached (h : Muted past m) (r : ResourceId) : Muted past (m.releaseCached r).2 :=
  (drainStable past).releaseCached (fun b bytes alignment hm => hm.giveBack r b bytes alignment)
    (fun kind bytes hm => hm.endPass kind bytes) (fun _ _ => h.congr rfl) h

end Muted

namespace Machine

variable {m m' : Machine} {r : ResourceId} {k : BlockKey} {f : Failure}

end Machine

end StreamMemory
