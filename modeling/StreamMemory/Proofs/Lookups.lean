import StreamMemory.Machine.Call
import StreamMemory.Proofs.Parcels

/-!
# Looking resources up

What the resources of a machine are after a block was taken, given back or cached, and after a
resource was created or dropped; and which resources have free lists.
-/

set_option autoImplicit false

namespace StreamMemory

def Resource.parcels (r : ResourceId) : Resource → List Parcel
  | emulated e => StreamMemory.parcels r e.free.lists
  | _ => []

namespace Machine

variable {m : Machine} {r : ResourceId}

theorem resource?_congr {m' : Machine} (h : m'.resources = m.resources) (r : ResourceId) :
    m'.resource? r = m.resource? r := by
  unfold resource?
  rw [h]

theorem emulated?_congr {m' : Machine} (h : m'.resources = m.resources) (r : ResourceId) :
    m'.emulated? r = m.emulated? r := by
  unfold emulated?
  rw [resource?_congr h]

theorem emulated?_eq_some {e : Emulated} :
    m.emulated? r = some e ↔ m.resource? r = some (.emulated e) := by
  unfold emulated?
  cases hx : m.resource? r with
  | none => simp
  | some x => cases x <;> simp [Resource.emulated?]

theorem lt_of_resource? {x : Resource} (h : m.resource? r = some x) : r < m.resources.length := by
  apply Nat.lt_of_not_le
  intro hle
  simp [resource?, List.getElem?_eq_none hle] at h

theorem emulated?_setResource (hr : r < m.resources.length) (x : Resource) (q : ResourceId) :
    (m.setResource r x).emulated? q = if q = r then x.emulated? else m.emulated? q := by
  unfold emulated?
  rw [resource?_setResource m hr]
  split <;> rfl

theorem emulated?_setEmulated {e : Emulated} (h : m.emulated? r = some e) (e' : Emulated)
    (q : ResourceId) :
    (m.setEmulated r e').emulated? q = if q = r then some e' else m.emulated? q :=
  emulated?_setResource (lt_of_resource? (emulated?_eq_some.mp h)) _ q

theorem emulated?_setEmulated_self {e : Emulated} (h : m.emulated? r = some e) (e' : Emulated) :
    (m.setEmulated r e').emulated? r = some e' :=
  (emulated?_setEmulated h e' r).trans (if_pos rfl)

theorem resource?_set_of_ne {q : ResourceId} (h : q ≠ r) (m : Machine) (x : Option Resource) :
    Machine.resource? { m with resources := m.resources.set q x } r = m.resource? r := by
  unfold resource?
  dsimp only
  rw [List.getElem?_set_ne h]

theorem emulated?_set_of_ne {q : ResourceId} (h : q ≠ r) (m : Machine) (x : Option Resource) :
    Machine.emulated? { m with resources := m.resources.set q x } r = m.emulated? r := by
  unfold emulated?
  rw [resource?_set_of_ne h]

theorem resource?_create (m : Machine) (x : Resource) (q : ResourceId) :
    (m.create x).2.resource? q = if q = m.resources.length then some x else m.resource? q := by
  unfold resource? create
  dsimp only
  split
  · rename_i hq
    subst hq
    simp
  · rename_i hq
    by_cases hlt : q < m.resources.length
    · rw [List.getElem?_append_left hlt]
    · have hgt : m.resources.length < q := Nat.lt_of_le_of_ne (Nat.le_of_not_lt hlt) (Ne.symm hq)
      rw [List.getElem?_eq_none (Nat.le_of_lt hgt), List.getElem?_eq_none]
      rw [List.length_append]
      exact hgt

theorem emulated?_create (m : Machine) (x : Resource) (q : ResourceId) :
    (m.create x).2.emulated? q = if q = m.resources.length then x.emulated? else m.emulated? q := by
  unfold emulated?
  rw [resource?_create]
  split <;> rfl

theorem resource?_of_discard {q : ResourceId} {x : Resource}
    (h : Machine.resource? { m with resources := m.resources.set r none } q = some x) :
    r ≠ q ∧ m.resource? q = some x := by
  unfold resource? at h ⊢
  dsimp only at h
  rw [List.getElem?_set] at h
  split at h
  · split at h <;> cases h
  · rename_i hne
    exact ⟨hne, h⟩

theorem emulated?_of_discard {q : ResourceId} {e : Emulated}
    (h : Machine.emulated? { m with resources := m.resources.set r none } q = some e) :
    r ≠ q ∧ m.emulated? q = some e := by
  rw [emulated?_eq_some] at h ⊢
  exact resource?_of_discard h

/-- A block taken from the system is new, and nothing else changes but the heap's account. -/
theorem takeBlock_eq_ok {heap heap' : Heap} {bytes alignment : Nat} {b : BlockId} {m' : Machine}
    (h : m.takeBlock r heap bytes alignment = .ok (b, heap', m')) :
    b = m.memory.blocks.length ∧
      heap' = { allocated := heap.allocated.add bytes, count := heap.count + 1 } ∧
      m' = { m with
        memory := { m.memory with
          blocks := m.memory.blocks ++ [⟨Heap.layout bytes alignment, .zero⟩] }
        trace := .obtained ⟨b, r, bytes, alignment⟩ :: m.trace } := by
  unfold takeBlock Heap.allocate SystemMemory.obtain? at h
  split at h
  · cases h
  · rename_i hall
    cases h
    split at hall
    · cases hall
    · split at hall
      · cases hall
      · rename_i hobt
        cases hall
        split at hobt
        · cases hobt
          exact ⟨rfl, rfl, rfl⟩
        · cases hobt

theorem giveBack_eq (m : Machine) (r : ResourceId) (b : BlockId) (bytes alignment : Nat) :
    (m.resource? r = none ∧
      m.giveBack r b bytes alignment = m.emit (.returned b (Heap.layout bytes alignment))) ∨
    ∃ x, m.resource? r = some x ∧
      m.giveBack r b bytes alignment =
        (m.emit (.returned b (Heap.layout bytes alignment))).setResource r
          (x.setHeap (x.heap.giveBack bytes)) := by
  unfold giveBack
  dsimp only
  split
  · rename_i x hx
    exact .inr ⟨x, hx, rfl⟩
  · rename_i hx
    exact .inl ⟨hx, rfl⟩

theorem trace_giveBack (m : Machine) (r : ResourceId) (b : BlockId) (bytes alignment : Nat) :
    (m.giveBack r b bytes alignment).trace =
      .returned b (Heap.layout bytes alignment) :: m.trace := by
  rcases m.giveBack_eq r b bytes alignment with ⟨-, e⟩ | ⟨x, -, e⟩
  · rw [e]
    rfl
  · rw [e]
    rfl

theorem streams_giveBack (m : Machine) (r : ResourceId) (b : BlockId) (bytes alignment : Nat) :
    (m.giveBack r b bytes alignment).streams = m.streams := by
  rcases m.giveBack_eq r b bytes alignment with ⟨-, e⟩ | ⟨x, -, e⟩
  · rw [e]
    rfl
  · rw [e]
    rfl

theorem memory_giveBack (m : Machine) (r : ResourceId) (b : BlockId) (bytes alignment : Nat) :
    (m.giveBack r b bytes alignment).memory = m.memory := by
  rcases m.giveBack_eq r b bytes alignment with ⟨-, e⟩ | ⟨x, -, e⟩
  · rw [e]
    rfl
  · rw [e]
    rfl

theorem environment_giveBack (m : Machine) (r : ResourceId) (b : BlockId)
    (bytes alignment : Nat) : (m.giveBack r b bytes alignment).environment = m.environment := by
  rcases m.giveBack_eq r b bytes alignment with ⟨-, e⟩ | ⟨x, -, e⟩
  · rw [e]
    rfl
  · rw [e]
    rfl

theorem resource?_giveBack_of_ne {q : ResourceId} (h : q ≠ r) (m : Machine) (b : BlockId)
    (bytes alignment : Nat) :
    (m.giveBack q b bytes alignment).resource? r = m.resource? r := by
  rcases m.giveBack_eq q b bytes alignment with ⟨-, e⟩ | ⟨x, -, e⟩
  · rw [e]
    rfl
  · rw [e]
    exact resource?_set_of_ne h (m.emit _) _

theorem freeBlock_eq (m : Machine) (s : StreamId) (r : ResourceId) (b : BlockId) (k : BlockKey) :
    m.freeBlock s r b k = m.report s (.freed false) ∨
    ∃ e, m.emulated? r = some e ∧
      m.freeBlock s r b k =
        ((m.emit (.released ⟨b, r, k.bytes, k.alignment⟩)).cacheBlock r e b k).report s
          (.freed true) := by
  unfold freeBlock
  split
  · rename_i e he
    exact .inr ⟨e, he, rfl⟩
  · exact .inl rfl

theorem memory_freeBlock (m : Machine) (s : StreamId) (r : ResourceId) (b : BlockId)
    (k : BlockKey) : (m.freeBlock s r b k).memory = m.memory := by
  rcases m.freeBlock_eq s r b k with h | ⟨e, -, h⟩
  · rw [h]
    rfl
  · rw [h]
    rfl

theorem environment_freeBlock (m : Machine) (s : StreamId) (r : ResourceId) (b : BlockId)
    (k : BlockKey) : (m.freeBlock s r b k).environment = m.environment := by
  rcases m.freeBlock_eq s r b k with h | ⟨e, -, h⟩
  · rw [h]
    rfl
  · rw [h]
    rfl

theorem synchronizeNoThrow_eq (m : Machine) (s : StreamId) :
    m.synchronizeNoThrow s = (m.synchronize s).2 ∨
    ∃ f, m.synchronizeNoThrow s =
      (m.synchronize s).2.log (.synchronizeFailed (.view s) f) := by
  unfold synchronizeNoThrow Synchronizer.synchronizeNoThrow views
  dsimp only
  cases (m.synchronize s).1 with
  | ok _ => exact .inl rfl
  | error f => exact .inr ⟨.stream f, rfl⟩

theorem resources_takeBlock {heap heap' : Heap} {bytes alignment : Nat} {b : BlockId} {m' : Machine}
    (hb : m.takeBlock r heap bytes alignment = .ok (b, heap', m')) :
    m'.resources = m.resources := by
  obtain ⟨-, -, rfl⟩ := takeBlock_eq_ok hb
  rfl

theorem resource?_takeBlock {heap heap' : Heap} {bytes alignment : Nat} {b : BlockId} {m' : Machine}
    (hb : m.takeBlock r heap bytes alignment = .ok (b, heap', m')) (q : ResourceId) :
    m'.resource? q = m.resource? q :=
  resource?_congr (resources_takeBlock hb) q

theorem emulated?_takeBlock {heap heap' : Heap} {bytes alignment : Nat} {b : BlockId} {m' : Machine}
    (hb : m.takeBlock r heap bytes alignment = .ok (b, heap', m')) (q : ResourceId) :
    m'.emulated? q = m.emulated? q := by
  unfold emulated?
  rw [resource?_takeBlock hb]

theorem fairReleases_of_takeBlock {m' : Machine} {heap heap' : Heap}
    {bytes alignment : Nat} {b : BlockId}
    (hb : m.takeBlock r heap bytes alignment = .ok (b, heap', m')) (hf : FairReleases m'.trace) :
    FairReleases m.trace := by
  obtain ⟨-, -, rfl⟩ := takeBlock_eq_ok hb
  exact hf

theorem fairReleases_of_giveBack {b : BlockId} {bytes alignment : Nat}
    (hf : FairReleases (m.giveBack r b bytes alignment).trace) : FairReleases m.trace := by
  rw [trace_giveBack] at hf
  exact hf

theorem backend?_eq_some {k : Backend Machine StreamId} (h : m.backend? r = some k) :
    (∃ e, m.emulated? r = some e ∧ k = emulatedBackend r) ∨
      (∃ heap, m.resource? r = some (.recorded heap) ∧ k = recordedBackend r) := by
  unfold backend? at h
  split at h
  · rename_i e he
    cases h
    exact .inl ⟨e, emulated?_eq_some.mpr he, rfl⟩
  · rename_i heap he
    cases h
    exact .inr ⟨heap, he, rfl⟩
  · cases h

theorem isSome_resource?_of_backend? (h : (m.backend? r).isSome = true) :
    (m.resource? r).isSome = true := by
  obtain ⟨backend, hb⟩ := Option.isSome_iff_exists.mp h
  rcases backend?_eq_some hb with ⟨e, he, -⟩ | ⟨heap, hx, -⟩
  · rw [emulated?_eq_some.mp he]
    rfl
  · rw [hx]
    rfl

theorem backend?_eq_emulatedBackend {e : Emulated} (he : m.emulated? r = some e) :
    m.backend? r = some (emulatedBackend r) := by
  unfold backend?
  rw [emulated?_eq_some.mp he]

theorem call_allocateAsync {e : Emulated} (he : m.emulated? r = some e) (k : BlockKey) :
    m.call (.allocateAsync r k) = lend r k.bytes k.alignment (m.allocateAsync r k) := by
  simp only [call, backend?_eq_emulatedBackend he, emulatedBackend]

theorem call_releaseAsync {e : Emulated} (he : m.emulated? r = some e) (x : Loan) (s : StreamId) :
    m.call (.releaseAsync r x s) =
      (m.emit (.released x)).cacheBlock r e x.block ⟨s, x.bytes, x.alignment⟩ := by
  have he' : (m.emit (.released x)).emulated? r = some e := he
  simp only [call, backend?_eq_emulatedBackend he, emulatedBackend, deallocateAsync, he']

/-- A synchronous release goes by the default stream, which is synchronized first. -/
theorem call_release {e : Emulated} (he : m.emulated? r = some e) (x : Loan) :
    m.call (.release r x) =
      ((m.emit (.released x)).synchronizeNoThrow defaultStream).deallocateAsync r x.block
        ⟨defaultStream, x.bytes, x.alignment⟩ := by
  have hb : (m.emit (.released x)).backend? r = some (emulatedBackend r) :=
    backend?_eq_emulatedBackend (m := m.emit (.released x)) he
  simp only [call, emulated?_eq_some.mp he, deallocate, hb]
  rfl

theorem backend?_congr {m' : Machine} (h : m'.resource? r = m.resource? r) :
    m'.backend? r = m.backend? r := by
  unfold backend?
  rw [h]

theorem backend?_setHeap (hd : m.backend? r = none) {x : Resource} (hx : m.resource? r = some x)
    (heap : Heap) : (m.setResource r (x.setHeap heap)).backend? r = none := by
  unfold backend? at hd ⊢
  rw [hx] at hd
  rw [(resource?_setResource m (lt_of_resource? hx) _ r).trans (if_pos rfl)]
  cases x <;> first | rfl | cases hd

/-- A direct resource gets every block from its heap, and a failure leaves everything as it was. -/
theorem allocate_direct (hd : m.backend? r = none) (bytes alignment : Nat) :
    (∃ f, m.allocate r bytes alignment = (.error f, m)) ∨
      ∃ b x heap n, m.resource? r = some x ∧
        m.takeBlock r x.heap bytes alignment = .ok (b, heap, n) ∧
        m.allocate r bytes alignment = (.ok b, n.setResource r (x.setHeap heap)) := by
  unfold allocate
  rw [hd]
  dsimp only
  unfold allocateFromHeap
  split
  · exact .inl ⟨_, rfl⟩
  · rename_i x hx
    split
    · exact .inl ⟨_, rfl⟩
    · rename_i b heap n hb
      exact .inr ⟨b, x, heap, n, hx, hb, rfl⟩

theorem emulated?_of_backend?_eq_none (h : m.backend? r = none) : m.emulated? r = none := by
  unfold backend? at h
  unfold emulated?
  cases hx : m.resource? r with
  | none => rfl
  | some x =>
    rw [hx] at h
    cases x <;> first | rfl | cases h

/-- What happens to the heap of any resource leaves the rest of an emulated resource alone. -/
theorem exists_emulated?_setHeap {q : ResourceId} {e : Emulated} (he : m.emulated? r = some e)
    {x : Resource}
    (hx : m.resource? q = some x) (heap : Heap) :
    ∃ heap', (m.setResource q (x.setHeap heap)).emulated? r = some { e with heap := heap' } := by
  rw [emulated?_setResource (lt_of_resource? hx)]
  split
  · rename_i hq
    subst hq
    obtain rfl : .emulated e = x := Option.some.inj ((emulated?_eq_some.mp he).symm.trans hx)
    exact ⟨heap, rfl⟩
  · exact ⟨e.heap, he⟩

/-- There is a resource, and it has no free lists. -/
def Plain (m : Machine) (r : ResourceId) : Prop :=
  ∃ x, m.resource? r = some x ∧ x.emulated? = none

theorem Plain.emulated? (h : m.Plain r) : m.emulated? r = none := by
  obtain ⟨x, hx, hn⟩ := h
  unfold Machine.emulated?
  rw [hx]
  exact hn

theorem plain_of_emulated?_eq_none {x : Resource} (hx : m.resource? r = some x)
    (h : m.emulated? r = none) : m.Plain r := by
  refine ⟨x, hx, ?_⟩
  unfold Machine.emulated? at h
  rwa [hx] at h

theorem Plain.congr {m' : Machine} (h : m.Plain r) (hr : m'.resources = m.resources) :
    m'.Plain r := by
  unfold Plain resource? at h ⊢
  rwa [hr]

theorem emulated?_setHeap {x : Resource} (h : x.emulated? = none) (heap : Heap) :
    (x.setHeap heap).emulated? = none := by
  cases x with
  | emulated e => cases h
  | _ => rfl

theorem Plain.setHeap {x : Resource} (hx : m.resource? r = some x) (hn : x.emulated? = none)
    (heap : Heap) : (m.setResource r (x.setHeap heap)).Plain r := by
  refine ⟨x.setHeap heap, ?_, emulated?_setHeap hn heap⟩
  rw [resource?_setResource m (lt_of_resource? hx), if_pos rfl]

theorem Plain.giveBack (h : m.Plain r) (b : BlockId) (bytes alignment : Nat) :
    (m.giveBack r b bytes alignment).Plain r := by
  obtain ⟨y, hy, hn⟩ := h
  rcases m.giveBack_eq r b bytes alignment with ⟨hx, -⟩ | ⟨x, hx, e⟩
  · exact absurd (hx.symm.trans hy) (by simp)
  · obtain rfl : x = y := Option.some.inj (hx.symm.trans hy)
    rw [e]
    exact Plain.setHeap (m := m.emit (.returned b (Heap.layout bytes alignment))) hx hn _

theorem Plain.allocateFromHeap (h : m.Plain r) (bytes alignment : Nat) :
    (m.allocateFromHeap r bytes alignment).2.Plain r := by
  obtain ⟨x, hx, hn⟩ := h
  unfold Machine.allocateFromHeap
  rw [hx]
  dsimp only
  split
  · exact ⟨x, hx, hn⟩
  · rename_i b heap m' hb
    obtain ⟨-, -, rfl⟩ := takeBlock_eq_ok hb
    exact Plain.setHeap hx hn heap

/-- An emulated resource takes back nothing but its own blocks. -/
theorem eq_of_accepts {e : Emulated} {owner : ResourceId} (he : m.emulated? r = some e)
    (h : m.accepts r owner = true) : r = owner := by
  unfold accepts isEqual? at h
  rw [emulated?_eq_some.mp he] at h
  rw [Bool.or_eq_true, beq_iff_eq] at h
  rcases h with h | h
  · exact h
  · cases ho : m.resource? owner with
    | none => simp [ho] at h
    | some y =>
      rw [ho] at h
      by_cases hc : (Resource.emulated e).comparable y = true
      · simpa [hc, Resource.acceptsOther] using h
      · simp [hc] at h

end Machine

end StreamMemory
