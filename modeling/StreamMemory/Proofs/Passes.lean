import StreamMemory.Proofs.Restraint

/-!
# Release passes that nobody interferes with

An operation that a release pass starts may release a block to the resource, which is then cached
again. If no operation does, the pass leaves nothing in the free lists, and the heap accounts for
the blocks in use only.
-/

set_option autoImplicit false

namespace StreamMemory

/-- Nothing is released to a resource. -/
def sparing (r : ResourceId) (_ : StreamId) : Act → Bool
  | .free q _ _ => q != r
  | _ => true

theorem Heap.giveBack_giveBack (h : Heap) (n bytes : Nat) :
    (h.giveBack n).giveBack bytes = h.giveBack (n + bytes) := by
  simp only [giveBack, Gauge.sub, Nat.sub_sub]

/-- What a release pass leaves of a resource if nothing is released to it meanwhile. -/
def Emulated.emptied (e : Emulated) : Emulated :=
  { e.beginPass with heap := e.heap.giveBack (FreeLists.totalBytes e.free.lists) }

/-- The blocks of a resource that are on loan. -/
def Machine.loans (m : Machine) (r : ResourceId) : List Loan :=
  (onLoan m.trace).filter fun x => x.resource == r

theorem filter_erase_of_not {α : Type} [BEq α] [LawfulBEq α] {p : α → Bool} {x : α}
    (hx : p x = false) (xs : List α) : (xs.erase x).filter p = xs.filter p := by
  induction xs with
  | nil => rfl
  | cons y ys ih =>
    rw [List.erase_cons]
    split
    · rename_i hy
      rw [List.filter_cons, eq_of_beq hy, hx]
      rfl
    · rw [List.filter_cons, List.filter_cons, ih]

namespace Machine

variable {m : Machine} {r : ResourceId} {e : Emulated}

theorem loans_emit {ev : Event} (h : ev.moves = false) : (m.emit ev).loans r = m.loans r :=
  congrArg (List.filter _) (onLoan_cons m.trace h)

theorem respected_emulated (r : ResourceId) (e : Emulated) :
    Respected (sparing r) fun m => m.emulated? r = some e where
  streams _ h := h
  emit _ h := h
  write _ _ _ _ _ _ h := h
  free {m} s q b k ha h := by
    rcases m.freeBlock_eq s q b k with hf | ⟨f, hq, hf⟩
    · rw [hf]
      exact h
    · have hne : r ≠ q := (bne_iff_ne.mp ha).symm
      rw [hf]
      exact (emulated?_setEmulated (m := m.emit (.released ⟨b, q, k.bytes, k.alignment⟩)) hq
        (f.cache k b) r).trans ((if_neg hne).trans h)

theorem respected_loans (r : ResourceId) (ls : List Loan) :
    Respected (sparing r) fun m => m.loans r = ls where
  streams _ h := h
  emit he h := (loans_emit he).trans h
  write _ _ _ _ _ _ h := h
  free {m} s q b k ha h := by
    rcases m.freeBlock_eq s q b k with hf | ⟨f, hq, hf⟩
    · rw [hf]
      exact (loans_emit rfl).trans h
    · have hne : (q == r) = false := beq_eq_false_iff_ne.mpr (bne_iff_ne.mp ha)
      rw [hf]
      exact (filter_erase_of_not (x := ⟨b, q, k.bytes, k.alignment⟩) hne _).trans h

theorem loans_giveBack (q : ResourceId) (b : BlockId) (bytes alignment : Nat) :
    (m.giveBack q b bytes alignment).loans r = m.loans r := by
  unfold loans
  rw [trace_giveBack]
  rfl

theorem emulated?_giveBack (he : m.emulated? r = some e) (b : BlockId) (bytes alignment : Nat) :
    (m.giveBack r b bytes alignment).emulated? r =
      some { e with heap := e.heap.giveBack bytes } := by
  have hx := emulated?_eq_some.mp he
  rcases m.giveBack_eq r b bytes alignment with ⟨hnone, -⟩ | ⟨x, hx', h⟩
  · exact absurd (hnone.symm.trans hx) (by simp)
  · obtain rfl : .emulated e = x := Option.some.inj (hx.symm.trans hx')
    rw [h]
    exact emulated?_setEmulated_self (m := m.emit (.returned b (Heap.layout bytes alignment))) he _

theorem emulated?_releaseKey (hm : m.Restrained (sparing r)) (he : m.emulated? r = some e)
    (k : BlockKey) (bs : List BlockId) :
    (m.releaseKey r k bs).emulated? r =
      some { e with heap := e.heap.giveBack (k.bytes * bs.length) } := by
  have hs := ((respected_emulated r e).synchronizeNoThrow hm k.stream he).2
  unfold releaseKey
  clear he
  generalize m.synchronizeNoThrow k.stream = n at hs
  induction bs generalizing n e with
  | nil => exact hs
  | cons b bs ih =>
    rw [List.foldl_cons, ih _ (emulated?_giveBack hs b k.bytes k.alignment), Heap.giveBack_giveBack,
      List.length_cons, Nat.mul_succ, Nat.add_comm]

theorem emulated?_releaseLists (hm : m.Restrained (sparing r)) (he : m.emulated? r = some e)
    (lists : KeyedList BlockKey (List BlockId)) :
    (m.releaseLists r lists).emulated? r =
      some { e with heap := e.heap.giveBack (FreeLists.totalBytes lists) } := by
  induction lists generalizing m e with
  | nil => exact he
  | cons entry lists ih =>
    obtain ⟨k, bs⟩ := entry
    have htotal : FreeLists.totalBytes ((k, bs) :: lists) =
        k.bytes * bs.length + FreeLists.totalBytes lists := rfl
    rw [releaseLists_cons, ih (hm.releaseKey r k bs) (emulated?_releaseKey hm he k bs),
      Heap.giveBack_giveBack, htotal]

/-- A pass that is left alone empties the free lists, and takes their bytes off the account of the
heap. -/
theorem emulated?_releaseCached (hm : m.Restrained (sparing r)) (he : m.emulated? r = some e) :
    (m.releaseCached r).2.emulated? r = some e.emptied := by
  have hbegun : (m.setEmulated r e.beginPass).emulated? r = some e.beginPass :=
    emulated?_setEmulated_self he _
  have hm' : (m.setEmulated r e.beginPass).Restrained (sparing r) := hm.congr rfl rfl
  unfold releaseCached
  rw [he]
  rw [Emulated.emptied, ← m.totalBytes_arrange]
  exact emulated?_releaseLists hm' hbegun (m.arrange e.free.lists)

theorem loans_releaseCached (hm : m.Restrained (sparing r)) :
    (m.releaseCached r).2.loans r = m.loans r := by
  unfold releaseCached
  split
  · rfl
  · rename_i e he
    have hm' : (m.setEmulated r e.beginPass).Restrained (sparing r) := hm.congr rfl rfl
    exact (loans_emit rfl).trans ((respected_loans r (m.loans r)).releaseLists
      (fun b bytes alignment h => (loans_giveBack r b bytes alignment).trans h) hm' _ rfl)

end Machine

end StreamMemory
