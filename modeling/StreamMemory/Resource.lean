import StreamMemory.Emulated
import StreamMemory.ExecutionContext

/-!
# Resources

The resources that a machine can hold: the system resource, emulated stream-ordered resources, and
three simple backends over a heap of their own. `lenient` takes blocks from every resource of its
kind, `devicePinned` from every resource with the same device, `recorded` records its hooks.
-/

set_option autoImplicit false

namespace StreamMemory

inductive Resource where
  | system (heap : Heap)
  | emulated (resource : Emulated)
  | lenient (heap : Heap)
  | devicePinned (context : DeviceContext) (heap : Heap)
  | recorded (heap : Heap)
  deriving DecidableEq, Repr

namespace Resource

/-- The accounting of what the resource holds of the system's memory. -/
def heap : Resource → Heap
  | system h | lenient h | devicePinned _ h | recorded h => h
  | emulated e => e.heap

def setHeap (r : Resource) (h : Heap) : Resource :=
  match r with
  | system _ => system h
  | lenient _ => lenient h
  | devicePinned c _ => devicePinned c h
  | recorded _ => recorded h
  | emulated e => emulated { e with heap := h }

@[simp] theorem heap_setHeap (r : Resource) (h : Heap) : (r.setHeap h).heap = h := by
  cases r <;> rfl

def emulated? : Resource → Option Emulated
  | emulated e => some e
  | _ => none

def kind : Resource → MemoryKind
  | system _ | lenient _ => .host
  | emulated e => e.kind
  | devicePinned .. => .pinned
  | recorded _ => .device

def context : Resource → ExecutionContext
  | devicePinned c _ => .device c
  | _ => .any

/-- Whether two resources have the same kind and the same sort of context, so that they can be
asked whether they are equal. -/
def comparable (r s : Resource) : Bool :=
  r.kind == s.kind &&
    match r.context, s.context with
    | .any, .any => true
    | .device _, .device _ => true
    | _, _ => false

/-- What a resource answers about another resource. -/
def acceptsOther (r s : Resource) : Bool :=
  match r with
  | lenient _ => true
  | devicePinned c _ => s.context == .device c
  | _ => false

theorem comparable_refl (r : Resource) : r.comparable r = true := by
  cases r <;> simp [comparable, context]

theorem comparable_comm (r s : Resource) : r.comparable s = s.comparable r := by
  unfold comparable
  rw [Bool.beq_comm]
  cases r.context <;> cases s.context <;> rfl

end Resource

end StreamMemory
