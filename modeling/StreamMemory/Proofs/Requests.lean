import StreamMemory.Proofs.Coverage
import StreamMemory.Proofs.Passes

/-!
# What becomes of a request

A request for a block can end in several ways, and which one it is depends on the alignment, the
free lists, the room that is left and the configuration (`Emulated.course`). A request that fails
leaves what is in use and what is on loan as it was; if it ran no release pass, it leaves everything
else as it was, too. Operations that a pass starts release nothing to the resource here.
-/

set_option autoImplicit false

namespace StreamMemory

/-- How a request is dealt with. -/
inductive Course where
  | unsupported
  | cached (block : BlockId)
  /-- The heap is asked. -/
  | heap (afterPass : Bool)
  /-- There is no room. -/
  | full (afterPass : Bool)
  deriving DecidableEq, Repr

namespace Course

/-- The release passes that are run. -/
def passes : Course → Nat
  | heap afterPass | full afterPass => if afterPass then 1 else 0
  | _ => 0

/-- The requests that are served from the free lists. -/
def reuses : Course → Nat
  | cached _ => 1
  | _ => 0

/-- Whether the bytes of the request are counted as in use, be it for a moment only. -/
def counts : Course → Bool
  | cached _ | heap _ => true
  | _ => false

/-- The answer to a request, if the system serves some layouts and `fresh` is its next block. What
the heap refuses is refused in its words. -/
def answer (serves : Layout → Bool) (fresh : BlockId) (k : BlockKey) :
    Course → Except Failure BlockId
  | unsupported => .error (.allocation k.bytes k.alignment .unsupportedAlignment)
  | cached b => .ok b
  | heap _ =>
    if addressLimit < max k.bytes 1 + k.alignment then
      .error (.allocation k.bytes k.alignment .sizeOverflow)
    else if serves (Heap.layout k.bytes k.alignment) then .ok fresh
    else .error (.allocation k.bytes k.alignment .outOfMemory)
  | full _ => .error (.allocation k.bytes k.alignment .outOfMemory)

end Course

instance decidableIsPowerOfTwo (n : Nat) : Decidable n.isPowerOfTwo :=
  decidable_of_iff _ (powerOfTwo_iff n)

/-- How a resource deals with a request. -/
def Emulated.course (e : Emulated) (k : BlockKey) : Course :=
  if ¬ (k.alignment.isPowerOfTwo ∧ k.alignment ≤ e.config.maxAlignment) then .unsupported
  else
    match e.free.blocks k with
    | b :: _ => .cached b
    | [] =>
      if e.live.current + e.free.cachedBytes + k.bytes ≤ e.config.capacity then .heap false
      else if e.config.reclaim = true then
        if e.live.current + k.bytes ≤ e.config.capacity then .heap true else .full true
      else .full false

theorem Emulated.supports_iff (e : Emulated) (alignment : Nat) :
    e.supports alignment = true ↔
      alignment.isPowerOfTwo ∧ alignment ≤ e.config.maxAlignment := by
  unfold supports
  rw [Bool.and_eq_true, decide_eq_true_iff, powerOfTwo_iff]

theorem Emulated.reserve?_eq (e : Emulated) (bytes : Nat) :
    e.reserve? bytes =
      if e.live.current + e.free.cachedBytes + bytes ≤ e.config.capacity then
        some { e with live := e.live.add bytes }
      else none := by
  unfold reserve? fits footprint
  simp only [decide_eq_true_iff]

/-- The bytes of a request are counted exactly, where room is found for them and where they were
counted as cached before. -/
theorem Emulated.sum_of_counts {e : Emulated} {k : BlockKey} (hs : e.free.Sound)
    (hroom : e.footprint ≤ e.config.capacity) (hc : (e.course k).counts = true) :
    e.live.sum k.bytes = e.live.current + k.bytes := by
  unfold course at hc
  split at hc
  · cases hc
  · split at hc
    · rename_i b bs hb
      obtain ⟨⟨c, e'⟩, hu⟩ := Option.isSome_iff_exists.mp
        ((e.reuse?_isSome_iff k).mpr (by rw [hb]; exact List.cons_ne_nil b bs))
      exact sum_of_le (room_of_reuse hs hroom hu)
    · split at hc
      · exact sum_of_fits ‹_›
      · split at hc
        · split at hc
          · exact sum_of_le ‹_›
          · cases hc
        · cases hc

/-- The machine on which a request goes on: the one that its release pass leaves, if it has one. -/
def Course.machine (c : Course) (m : Machine) (r : ResourceId) (k : BlockKey) (e : Emulated) :
    Machine :=
  if c.passes = 0 then m else ((m.log (.exhausted e.kind k.bytes)).releaseCached r).2

/-- The resource with which a request goes on. A pass has emptied its free lists. -/
def Course.resource (c : Course) (e : Emulated) : Emulated :=
  if c.passes = 0 then e else e.emptied

/-- What a request that was dealt with in some way leaves behind: the resource is `e'` then. The
request goes on with the machine `n`. -/
structure Dealt (c : Course) (m : Machine) (r : ResourceId) (k : BlockKey) (e : Emulated)
    (n : Machine) (o : Except Failure BlockId × Machine) (e' : Emulated) : Prop where
  answer : o.1 = c.answer (n.environment.serves n.trace) n.memory.blocks.length k
  begun : n.emulated? r = some (c.resource e)
  asked : ∀ afterPass, c = .heap afterPass →
    o = n.takeReserved r { c.resource e with live := e.live.add k.bytes } k
  full : ∀ afterPass, c = .full afterPass → o.2 = n
  resource : o.2.emulated? r = some e'
  passes : e'.reclaims = e.reclaims + c.passes
  /-- The gauge has seen the bytes of the request if and only if they were counted. -/
  peak : e'.live.peak =
    if c.counts = true then max e.live.peak (e.live.sum k.bytes) else e.live.peak
  served : ∀ b, o.1 = .ok b → e'.live.current = e.live.sum k.bytes ∧
    e'.reuses = e.reuses + c.reuses ∧ e'.allocations + c.reuses = e.allocations + 1
  failed : ∀ f, o.1 = .error f → e'.live.current = e.live.current ∧ o.2.loans r = m.loans r ∧
    e'.allocations = e.allocations ∧ e'.reuses = e.reuses
  withoutPass : c.passes = 0 → o.2.streams = m.streams ∧
    ∀ f, o.1 = .error f → e'.free = e.free ∧ e'.heap = e.heap

namespace Machine

variable {m : Machine} {r : ResourceId} {k : BlockKey} {e : Emulated}

/-- The way that a request goes. -/
theorem allocateAsync_cases (he : m.emulated? r = some e) (k : BlockKey) :
    (e.course k = .unsupported ∧ m.allocateAsync r k =
      (.error (.allocation k.bytes k.alignment .unsupportedAlignment), m)) ∨
    (∃ b e', e.course k = .cached b ∧ e.reuse? k = some (b, e') ∧
      m.allocateAsync r k = (.ok b, (m.setEmulated r e').log (.reused k.stream k.bytes))) ∨
    (k.alignment.isPowerOfTwo ∧ e.free.blocks k = [] ∧
      ((e.course k = .heap false ∧
          e.live.current + e.free.cachedBytes + k.bytes ≤ e.config.capacity ∧
          m.allocateAsync r k = m.takeReserved r { e with live := e.live.add k.bytes } k) ∨
        (e.course k = .full false ∧ m.allocateAsync r k = (outOfMemory k.bytes k.alignment, m)) ∨
        e.course k = (if e.live.current + k.bytes ≤ e.config.capacity then .heap true
            else .full true) ∧
          m.allocateAsync r k = m.reclaimFor r e k)) := by
  unfold allocateAsync Emulated.course
  rw [he]
  dsimp only
  by_cases hs : e.supports k.alignment = true
  · have hs' := (e.supports_iff k.alignment).mp hs
    rw [if_pos hs, if_neg (fun h => h hs')]
    cases hb : e.free.blocks k with
    | cons b bs =>
      obtain ⟨⟨c, e'⟩, hu⟩ := Option.isSome_iff_exists.mp
        ((e.reuse?_isSome_iff k).mpr (by rw [hb]; exact List.cons_ne_nil b bs))
      obtain ⟨⟨c', g⟩, hpop, hce⟩ := Option.map_eq_some_iff.mp hu
      cases hce
      have hblocks := FreeLists.blocks_pop hpop k
      rw [if_pos rfl, hb, List.cons.injEq] at hblocks
      obtain ⟨rfl, -⟩ := hblocks
      rw [hu]
      exact .inr (.inl ⟨b, _, rfl, rfl, rfl⟩)
    | nil =>
      have hu : e.reuse? k = none := by
        rw [← Option.not_isSome_iff_eq_none, e.reuse?_isSome_iff]
        exact fun h => h hb
      rw [hu, e.reserve?_eq]
      refine .inr (.inr ⟨hs'.1, rfl, ?_⟩)
      dsimp only
      split
      · exact .inl ⟨rfl, ‹_›, rfl⟩
      · dsimp only
        split
        · exact .inr (.inr ⟨rfl, rfl⟩)
        · exact .inr (.inl ⟨rfl, rfl⟩)
  · rw [if_neg hs, if_pos (fun h => hs ((e.supports_iff k.alignment).mpr h))]
    exact .inl ⟨rfl, rfl⟩

end Machine

/-! ## Requests to the heap -/

theorem Heap.refusal?_eq {bytes alignment : Nat} (h : alignment.isPowerOfTwo) :
    refusal? bytes alignment =
      if addressLimit < max bytes 1 + alignment then some .sizeOverflow else none := by
  have hp := (powerOfTwo_iff alignment).mpr h
  have hv := valid_layout_iff bytes alignment
  rw [hp] at hv
  have hone : 1 ≤ max bytes 1 := Nat.le_max_right _ _
  unfold refusal?
  rw [hp]
  by_cases hlimit : addressLimit < max bytes 1 + alignment
  · have hnot : ¬ (layout bytes alignment).valid = true := fun hvalid =>
      absurd (hv.mp hvalid).2 (by omega)
    simp [hlimit, hnot]
  · have hvalid : (layout bytes alignment).valid = true := hv.mpr ⟨rfl, by omega⟩
    simp [hlimit, hvalid]

namespace Machine

variable {m : Machine} {r : ResourceId} {k : BlockKey} {e : Emulated}

/-- The heap answers for a resource that has counted the bytes. -/
theorem dealt_takeReserved (he : m.emulated? r = some e) (hk : k.alignment.isPowerOfTwo)
    (hfits : e.live.current + e.free.cachedBytes + k.bytes ≤ e.config.capacity) :
    ∃ e', Dealt (.heap false) m r k e m
      (m.takeReserved r { e with live := e.live.add k.bytes } k) e' := by
  have hanswer : (m.takeReserved r { e with live := e.live.add k.bytes } k).1 =
      (Course.heap false).answer (m.environment.serves m.trace) m.memory.blocks.length k := by
    unfold takeReserved takeBlock Heap.allocate SystemMemory.obtain? Course.answer
    rw [Heap.refusal?_eq hk]
    by_cases hlimit : addressLimit < max k.bytes 1 + k.alignment
    · simp [hlimit]
    · by_cases hserves : m.environment.serves m.trace (Heap.layout k.bytes k.alignment) = true
      · simp [hlimit, hserves]
      · simp [hlimit, hserves]
  rcases ho : m.takeReserved r { e with live := e.live.add k.bytes } k with ⟨f | b, n⟩
  · rw [ho] at hanswer
    have hasked := ho.symm
    unfold takeReserved at ho
    split at ho
    · cases ho
      have hback := Emulated.current_unreserve ((e.reserve?_eq k.bytes).trans (if_pos hfits))
      refine ⟨_, hanswer, he, fun _ _ => hasked, fun _ h => (by cases h),
        emulated?_setEmulated_self he _, rfl, rfl, fun _ h => (by cases h), ?_, ?_⟩
      · exact fun _ _ => ⟨hback, rfl, rfl, rfl⟩
      · exact fun _ => ⟨rfl, fun _ _ => ⟨rfl, rfl⟩⟩
    · cases ho
  · rw [ho] at hanswer
    have hasked := ho.symm
    unfold takeReserved at ho
    split at ho
    · cases ho
    · rename_i heap m' hb
      cases ho
      have he' := (emulated?_takeBlock hb r).trans he
      obtain ⟨-, -, rfl⟩ := takeBlock_eq_ok hb
      refine ⟨_, hanswer, he, fun _ _ => hasked, fun _ h => (by cases h),
        emulated?_setEmulated_self he' _, rfl, rfl, ?_, fun _ h => (by cases h), ?_⟩
      · exact fun _ _ => ⟨rfl, rfl, rfl⟩
      · exact fun _ => ⟨rfl, fun _ h => (by cases h)⟩

/-! ## Requests after a release pass -/

/-- After a pass that is left alone a request finds the room that is not in use. -/
theorem dealt_reclaimFor (hm : m.Restrained (sparing r)) (he : m.emulated? r = some e)
    (hk : k.alignment.isPowerOfTwo) :
    ∃ e', Dealt (if e.live.current + k.bytes ≤ e.config.capacity then .heap true else .full true)
      m r k e ((m.log (.exhausted e.kind k.bytes)).releaseCached r).2 (m.reclaimFor r e k) e' := by
  have hnoted : (m.log (.exhausted e.kind k.bytes)).Restrained (sparing r) := hm.note rfl
  have hpassed := emulated?_releaseCached hnoted he
  have hloans := loans_releaseCached hnoted
  unfold reclaimFor
  dsimp only
  generalize ((m.log (.exhausted e.kind k.bytes)).releaseCached r).2 = n at *
  rw [hpassed, Option.bind_some, Emulated.reserve?_eq]
  have hroom : e.emptied.live.current + e.emptied.free.cachedBytes + k.bytes ≤
      e.emptied.config.capacity ↔ e.live.current + k.bytes ≤ e.config.capacity := Iff.rfl
  by_cases hfits : e.live.current + k.bytes ≤ e.config.capacity
  · rw [if_pos (hroom.mpr hfits), if_pos hfits]
    obtain ⟨e', hdealt⟩ := dealt_takeReserved hpassed hk (hroom.mpr hfits)
    refine ⟨e', hdealt.answer, hpassed, fun _ _ => hdealt.asked false rfl,
      fun _ h => (by cases h), hdealt.resource, hdealt.passes, hdealt.peak, hdealt.served, ?_, ?_⟩
    · intro f hf
      obtain ⟨hlive, hkept, hallocations, hreuses⟩ := hdealt.failed f hf
      exact ⟨hlive, hkept.trans hloans, hallocations, hreuses⟩
    · exact fun h => absurd h Nat.one_ne_zero
  · rw [if_neg (mt hroom.mp hfits), if_neg hfits]
    refine ⟨e.emptied, rfl, hpassed, fun _ h => (by cases h), fun _ _ => rfl, hpassed, rfl, rfl,
      fun _ h => (by cases h), ?_, ?_⟩
    · exact fun _ _ => ⟨rfl, hloans, rfl, rfl⟩
    · exact fun h => absurd h Nat.one_ne_zero

/-! ## Requests -/

theorem dealt_allocateAsync (hm : m.Restrained (sparing r)) (he : m.emulated? r = some e)
    (k : BlockKey) :
    ∃ e', Dealt (e.course k) m r k e ((e.course k).machine m r k e) (m.allocateAsync r k) e' := by
  rcases allocateAsync_cases he k with ⟨hc, h⟩ | ⟨b, e', hc, hu, h⟩ |
    ⟨hk, -, ⟨hc, hfits, h⟩ | ⟨hc, h⟩ | ⟨hc, h⟩⟩
  · rw [hc, h]
    exact ⟨e, rfl, he, fun _ h => (by cases h), fun _ _ => rfl, he, rfl, rfl,
      fun _ h => (by cases h), fun _ _ => ⟨rfl, rfl, rfl, rfl⟩,
      fun _ => ⟨rfl, fun _ _ => ⟨rfl, rfl⟩⟩⟩
  · obtain ⟨⟨b', g⟩, -, hbe⟩ := Option.map_eq_some_iff.mp hu
    cases hbe
    rw [hc, h]
    exact ⟨_, rfl, he, fun _ h => (by cases h), fun _ h => (by cases h),
      emulated?_setEmulated_self he _, rfl, rfl, fun _ _ => ⟨rfl, rfl, rfl⟩,
      fun _ h => (by cases h), fun _ => ⟨rfl, fun _ h => (by cases h)⟩⟩
  · rw [hc, h]
    exact dealt_takeReserved he hk hfits
  · rw [hc, h]
    exact ⟨e, rfl, he, fun _ h => (by cases h), fun _ _ => rfl, he, rfl, rfl,
      fun _ h => (by cases h), fun _ _ => ⟨rfl, rfl, rfl, rfl⟩,
      fun _ => ⟨rfl, fun _ _ => ⟨rfl, rfl⟩⟩⟩
  · rw [hc, h]
    obtain ⟨e', hdealt⟩ := dealt_reclaimFor hm he hk
    refine ⟨e', ?_⟩
    split
    · rwa [if_pos ‹_›] at hdealt
    · rwa [if_neg ‹_›] at hdealt

/-- How a request is answered, and what it leaves behind, at any time and for any resource to which
the operations that wait release nothing. -/
theorem request_outcome {env : Environment} {cs : List Call} {m : Machine} {r : ResourceId}
    {e : Emulated} (hm : m = (start env).run cs) (he : m.emulated? r = some e)
    (hops : ∀ s, ∀ op ∈ m.streams.waiting s, op.keeps (sparing r) s = true) (k : BlockKey) :
    (∃ e', Dealt (e.course k) m r k e ((e.course k).machine m r k e) (m.allocateAsync r k) e') ∧
      ((start env).Obeys Accepted cs → FairReleases m.trace → (e.course k).counts = true →
        e.live.sum k.bytes = e.live.current + k.bytes) := by
  have horderly : m.Orderly := hm ▸ (tidy_run env cs).orderly
  refine ⟨dealt_allocateAsync ⟨horderly, hops⟩ he k, fun ho hf hc => ?_⟩
  have hcovers : Covers r m [] := hm ▸ (Covers.start r env).run ho
  exact Emulated.sum_of_counts (hcovers.sound e he) (hcovers.covered hf e he).room hc

/-- Of the 16 bytes of a resource, 4 are in use and 8 are cached, and work waits that will fail. -/
def crammed : Machine :=
  (start {}).run [.createStream, .createStream, .build (.emulated .device (.of 16 8 true)),
    .allocateAsync 0 ⟨1, 8, 8⟩, .allocateAsync 0 ⟨2, 4, 4⟩, .enqueue 1 [.mark "work", .panic],
    .releaseAsync 0 ⟨0, 0, 8, 8⟩ 1]

theorem waiting_crammed : crammed.Waiting (sparing 0) :=
  waiting_of_table (by decide +kernel)

/-- Twelve bytes just fit after a pass, and thirteen do not. -/
theorem request_crammed :
    (crammed.allocateAsync 0 ⟨2, 12, 8⟩).1 = .ok 2 ∧
      (∃ e, (crammed.allocateAsync 0 ⟨2, 12, 8⟩).2.emulated? 0 = some e ∧
        e.live.current = 16 ∧ e.reclaims = 1) ∧
      (crammed.allocateAsync 0 ⟨2, 13, 8⟩).1 = .error (.allocation 13 8 .outOfMemory) ∧
      ∃ e, (crammed.allocateAsync 0 ⟨2, 13, 8⟩).2.emulated? 0 = some e ∧
        e.live.current = 4 ∧ e.reclaims = 1 := by
  have he : crammed.emulated? 0 = some {
      kind := .device
      config := .of 16 8 true
      heap := ⟨⟨12, 12⟩, 2⟩
      free := ⟨[(⟨1, 8, 8⟩, [0])], 8⟩
      live := ⟨4, 12⟩
      allocations := 2 } := by
    decide
  obtain ⟨⟨e₁, h₁⟩, -⟩ := request_outcome (m := crammed) rfl he waiting_crammed ⟨2, 12, 8⟩
  obtain ⟨⟨e₂, h₂⟩, -⟩ := request_outcome (m := crammed) rfl he waiting_crammed ⟨2, 13, 8⟩
  have hserved : (crammed.allocateAsync 0 ⟨2, 12, 8⟩).1 = .ok 2 := by
    obtain ⟨henvironment, hlength⟩ :=
      (crammed.log (.exhausted .device 12)).environment_releaseCached 0
    let n := ((crammed.log (.exhausted .device 12)).releaseCached 0).2
    refine h₁.answer.trans ?_
    change (Course.heap true).answer (n.environment.serves n.trace) n.memory.blocks.length _ = _
    rw [henvironment, hlength]
    rfl
  refine ⟨hserved, ⟨e₁, h₁.resource, (h₁.served 2 hserved).1, h₁.passes⟩, h₂.answer, e₂,
    h₂.resource, (h₂.failed _ h₂.answer).1, h₂.passes⟩

end Machine

end StreamMemory
