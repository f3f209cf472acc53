/-!
# Memory kinds

A kind says where storage lives and which side may touch it directly.
-/

set_option autoImplicit false

namespace StreamMemory

inductive MemoryKind where
  | device | unified | pinned | host
  deriving DecidableEq, Repr, Inhabited

namespace MemoryKind

def all : List MemoryKind := [device, unified, pinned, host]

def name : MemoryKind → String
  | device => "device"
  | unified => "unified"
  | pinned => "pinned"
  | host => "host"

/-- The name of the kind's tag. -/
def tag : MemoryKind → String
  | device => "Device"
  | unified => "Unified"
  | pinned => "Pinned"
  | host => "Host"

def hostAccessible (k : MemoryKind) : Bool := k != device

def deviceAccessible (k : MemoryKind) : Bool := k != host

theorem mem_all (k : MemoryKind) : k ∈ all := by
  cases k <;> decide

/-- Storage of every kind can be reached from somewhere. -/
theorem host_or_device_accessible (k : MemoryKind) : k.hostAccessible ∨ k.deviceAccessible := by
  cases k <;> decide

end MemoryKind

end StreamMemory
