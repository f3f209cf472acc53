import StreamMemory.Failure
import StreamMemory.Gauge
import StreamMemory.SystemMemory

/-!
# Heap accounting

What a resource has taken from the system: the bytes that it holds and how many requests were
served. A request for no bytes takes a block of one byte, and counts as no bytes.
-/

set_option autoImplicit false

namespace StreamMemory

structure Heap where
  allocated : Gauge := {}
  count : Nat := 0
  deriving DecidableEq, Repr, Inhabited

namespace Heap

/-- The layout to ask the system for. -/
def layout (bytes alignment : Nat) : Layout := ⟨max bytes 1, alignment⟩

/-- Refusals that need no answer from the system. -/
def refusal? (bytes alignment : Nat) : Option AllocFailure :=
  if !powerOfTwo alignment then some .unsupportedAlignment
  else if !(layout bytes alignment).valid then some .sizeOverflow
  else none

/-- Takes a block from the system, if that serves the layout. A failure changes nothing. -/
def allocate (h : Heap) (m : SystemMemory) (serves : Layout → Bool) (bytes alignment : Nat) :
    Except Failure (BlockId × Heap × SystemMemory) :=
  match refusal? bytes alignment with
  | some reason => .error (.allocation bytes alignment reason)
  | none =>
    match m.obtain? serves (layout bytes alignment) with
    | none => .error (.allocation bytes alignment .outOfMemory)
    | some (b, m') => .ok (b, { allocated := h.allocated.add bytes, count := h.count + 1 }, m')

/-- Accounts for a block given back. -/
def giveBack (h : Heap) (bytes : Nat) : Heap :=
  { h with allocated := h.allocated.sub bytes }

theorem valid_layout_iff (bytes alignment : Nat) :
    (layout bytes alignment).valid = true ↔
      powerOfTwo alignment = true ∧ max bytes 1 ≤ addressLimit - alignment := by
  rw [Layout.valid, Bool.and_eq_true, decide_eq_true_iff]
  rfl

theorem allocate_ok_iff (h : Heap) (m : SystemMemory) (serves : Layout → Bool)
    (bytes alignment : Nat) :
    (∃ r, h.allocate m serves bytes alignment = .ok r) ↔
      refusal? bytes alignment = none ∧ serves (layout bytes alignment) = true := by
  unfold allocate SystemMemory.obtain?
  cases refusal? bytes alignment <;> by_cases hs : serves (layout bytes alignment) <;> simp [hs]

def describe (h : Heap) : Description :=
  .record "SystemResource"
    [("allocated", h.allocated.describe), ("allocation_count", describeCount h.count)]

end Heap

end StreamMemory
