import StreamMemory.ByteCount
import StreamMemory.Text.Description

/-!
# Configuration of an emulated resource

`capacity` bounds the bytes held at once, in use and cached together; it is a size. An alignment
above `maxAlignment` is refused. With `reclaim` the cached blocks are given back before a request
fails for want of room.
-/

set_option autoImplicit false

namespace StreamMemory

structure Config where
  capacity : Nat := megabytes 256
  maxAlignment : Nat := kilobytes 4
  reclaim : Bool := true
  capacity_lt : capacity < sizeLimit := by decide
  deriving DecidableEq, Repr

namespace Config

def standard : Config := {}

instance : Inhabited Config := ⟨standard⟩

def minimal : Config where
  capacity := megabytes 1
  maxAlignment := 256

inductive Change where
  | capacity (bytes : Nat)
  | maxAlignment (alignment : Nat)
  | reclaim (enabled : Bool)

/-- A capacity is changed to a size. -/
def change (c : Config) : Change → Config
  | .capacity n =>
    { c with capacity := n % sizeLimit, capacity_lt := Nat.mod_lt n (Nat.two_pow_pos 64) }
  | .maxAlignment n => { c with maxAlignment := n }
  | .reclaim b => { c with reclaim := b }

def changes (c : Config) (cs : List Change) : Config := cs.foldl change c

def of (capacity maxAlignment : Nat) (reclaim : Bool) : Config :=
  standard.changes [.capacity capacity, .maxAlignment maxAlignment, .reclaim reclaim]

/-- The configuration itself and after each change. -/
def history (c : Config) : List Change → List Config
  | [] => [c]
  | d :: ds => c :: (c.change d).history ds

theorem getLast_history (c : Config) (cs : List Change) (h : c.history cs ≠ []) :
    (c.history cs).getLast h = c.changes cs := by
  induction cs generalizing c with
  | nil => rfl
  | cons d ds ih =>
    have hne : (c.change d).history ds ≠ [] := by cases ds <;> simp [history]
    exact (List.getLast_cons hne).trans (ih (c.change d) hne)

def describe (c : Config) : Description :=
  .record "EmulatedConfig"
    [("capacity", .nat c.capacity), ("max_alignment", .nat c.maxAlignment),
      ("reclaim_on_exhaustion", .bool c.reclaim)]

end Config

end StreamMemory
