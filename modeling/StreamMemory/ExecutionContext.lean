import StreamMemory.Text.Description

/-!
# Execution contexts

A context names where storage is usable without further synchronization. The context "any" is
known without asking the resource; a device context is reported by it.
-/

set_option autoImplicit false

namespace StreamMemory

/-- The context of one device, by its ordinal. -/
structure DeviceContext where
  device : Nat
  deriving DecidableEq, Repr

namespace DeviceContext

def name (c : DeviceContext) : String := "device:" ++ toString c.device

def describe (c : DeviceContext) : Description :=
  .record "DeviceContext" [("device", .nat c.device)]

end DeviceContext

inductive ExecutionContext where
  | any
  | device (context : DeviceContext)
  deriving DecidableEq, Repr

namespace ExecutionContext

def describe : ExecutionContext → Description
  | any => .atom "AnyContext"
  | device c => c.describe

end ExecutionContext

/-- What a caller wants to know about a context: that there is one, or which device it is. -/
inductive ContextQuery where
  | any | device
  deriving DecidableEq, Repr

/-- A resource that reports one device and counts how often it is asked. -/
structure ContextSource where
  device : Nat
  asked : Nat := 0

/-- The answer to a query. Only a query for the device asks the resource. -/
def ContextQuery.resolve (s : ContextSource) : ContextQuery → ExecutionContext × ContextSource
  | any => (.any, s)
  | device => (.device ⟨s.device⟩, { s with asked := s.asked + 1 })

/-- Answers to a list of queries, each with the number of times the resource was asked so far. -/
def ContextSource.resolveAll (s : ContextSource) : List ContextQuery → List (ExecutionContext × Nat)
  | [] => []
  | q :: qs => ((q.resolve s).1, (q.resolve s).2.asked) :: (q.resolve s).2.resolveAll qs

theorem ContextSource.length_resolveAll (s : ContextSource) (qs : List ContextQuery) :
    (s.resolveAll qs).length = qs.length := by
  induction qs generalizing s with
  | nil => rfl
  | cons q qs ih => simp [resolveAll, ih]

end StreamMemory
