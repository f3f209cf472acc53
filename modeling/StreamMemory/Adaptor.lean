import StreamMemory.Machine.Allocation

/-!
# Allocator adaptors

An adaptor gives a host-accessible resource the interface of a plain allocator: a request is a
layout, and a refusal is the absence of a block. A zeroed request and a reallocation are made of
plain requests and releases.
-/

set_option autoImplicit false

namespace StreamMemory

/-- A shared handle to a resource. -/
structure Adaptor where
  resource : ResourceId
  deriving DecidableEq, Repr

namespace Adaptor

def allocate (a : Adaptor) (m : Machine) (l : Layout) : Option BlockId × Machine :=
  ((m.allocate a.resource l.size l.alignment).1.toOption,
    (m.allocate a.resource l.size l.alignment).2)

/-- A block whose bytes are all zero, also if it was used before. -/
def allocateZeroed (a : Adaptor) (m : Machine) (l : Layout) : Option BlockId × Machine :=
  match a.allocate m l with
  | (some b, m) => (some b, { m with memory := m.memory.write b 0 l.size 0 })
  | (none, m) => (none, m)

/-- Nothing happens if there is no block. -/
def release (a : Adaptor) (m : Machine) (b : Option BlockId) (l : Layout) : Machine :=
  match b with
  | some b => m.deallocate a.resource b l.size l.alignment
  | none => m

/-- A block of another size with as much of the contents as fits. The old block is released only if
there is a new one. -/
def reallocate (a : Adaptor) (m : Machine) (b : BlockId) (l : Layout) (size : Nat) :
    Option BlockId × Machine :=
  match a.allocate m { l with size } with
  | (some c, m) =>
    (some c, a.release { m with memory := m.memory.copy b c (min l.size size) } (some b) l)
  | (none, m) => (none, m)

/-- Asks the resource of `other`, unless it is the same resource. -/
def isEqual (a other : Adaptor) (m : Machine) : Bool :=
  m.accepts other.resource a.resource

def describe (kind : MemoryKind) : Description :=
  .openRecord "HostAllocatorAdaptor" [("kind", .atom kind.tag)]

theorem isEqual_self (a : Adaptor) (m : Machine) : a.isEqual a m = true :=
  m.accepts_self a.resource

end Adaptor

end StreamMemory
