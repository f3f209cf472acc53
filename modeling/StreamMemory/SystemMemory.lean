/-!
# System memory

The allocator below every resource. It hands out blocks for valid layouts, or refuses; which layouts
it serves is not for it to say. Blocks are numbered in the order in which they are handed out, so a
new block is never one that was handed out before. A block starts with every byte zero.
-/

set_option autoImplicit false

namespace StreamMemory

def powerOfTwo (n : Nat) : Bool := 1 <<< n.log2 == n

theorem powerOfTwo_iff (n : Nat) : powerOfTwo n = true ↔ n.isPowerOfTwo := by
  rw [powerOfTwo, beq_iff_eq, Nat.one_shiftLeft]
  constructor
  · intro h
    exact ⟨n.log2, h.symm⟩
  · rintro ⟨k, rfl⟩
    rw [Nat.log2_two_pow]

/-- No block ends above this address. -/
def addressLimit : Nat := 0x8000000000000000

def spaceLimit : Nat := 0x800000000000

structure Layout where
  size : Nat
  alignment : Nat
  deriving DecidableEq, Repr, Inhabited

namespace Layout

/-- The alignment is a power of two, and the size rounded up to it is within the address limit. -/
def valid (l : Layout) : Bool :=
  powerOfTwo l.alignment && decide (l.size ≤ addressLimit - l.alignment)

end Layout

abbrev BlockId := Nat

abbrev Contents := Nat → UInt8

namespace Contents

def zero : Contents := fun _ => 0

def fill (c : Contents) (byte : UInt8) (length offset : Nat) : Contents :=
  fun i => if offset ≤ i ∧ i < offset + length then byte else c i

/-- The first `length` bytes of `source`, then those of `c`. -/
def overlay (c source : Contents) (length : Nat) : Contents :=
  fun i => if i < length then source i else c i

def read (c : Contents) (length offset : Nat) : List UInt8 :=
  (List.range length).map fun i => c (offset + i)

theorem fill_of_mem {c : Contents} {byte : UInt8} {length offset i : Nat}
    (h : offset ≤ i ∧ i < offset + length) : c.fill byte length offset i = byte := if_pos h

theorem overlay_of_lt {c source : Contents} {length i : Nat} (h : i < length) :
    c.overlay source length i = source i := if_pos h

@[simp] theorem length_read (c : Contents) (length offset : Nat) :
    (c.read length offset).length = length := by
  simp [read]

end Contents

structure Block where
  layout : Layout
  contents : Contents := .zero

structure SystemMemory where
  blocks : List Block := []

namespace SystemMemory

def obtain? (m : SystemMemory) (serves : Layout → Bool) (l : Layout) :
    Option (BlockId × SystemMemory) :=
  if serves l then some (m.blocks.length, { m with blocks := m.blocks ++ [⟨l, .zero⟩] })
  else none

def contents (m : SystemMemory) (b : BlockId) : Contents :=
  (m.blocks[b]?.map Block.contents).getD .zero

def modify (m : SystemMemory) (b : BlockId) (f : Contents → Contents) : SystemMemory :=
  { m with blocks := m.blocks.modify b fun x => { x with contents := f x.contents } }

def write (m : SystemMemory) (b : BlockId) (byte : UInt8) (length offset : Nat) : SystemMemory :=
  m.modify b fun c => c.fill byte length offset

def read (m : SystemMemory) (b : BlockId) (length offset : Nat) : List UInt8 :=
  (m.contents b).read length offset

def copy (m : SystemMemory) (source target : BlockId) (length : Nat) : SystemMemory :=
  m.modify target fun c => c.overlay (m.contents source) length

@[simp] theorem length_blocks_modify (m : SystemMemory) (b : BlockId) (f : Contents → Contents) :
    (m.modify b f).blocks.length = m.blocks.length := by
  simp [modify]

theorem layouts_modify (m : SystemMemory) (b : BlockId) (f : Contents → Contents) :
    (m.modify b f).blocks.map Block.layout = m.blocks.map Block.layout := by
  apply List.ext_getElem?
  intro i
  simp only [modify, List.getElem?_map, List.getElem?_modify]
  cases m.blocks[i]? with
  | none => rfl
  | some x => by_cases h : b = i <;> simp [h]

theorem contents_modify (m : SystemMemory) {b : BlockId} (hb : b < m.blocks.length)
    (f : Contents → Contents) (c : BlockId) :
    (m.modify b f).contents c = if c = b then f (m.contents b) else m.contents c := by
  simp only [contents, modify, List.getElem?_modify]
  by_cases h : c = b
  · subst h
    simp [List.getElem?_eq_getElem hb]
  · have h' : ¬ b = c := fun e => h e.symm
    cases hc : m.blocks[c]? <;> simp [h, h']

end SystemMemory

end StreamMemory
