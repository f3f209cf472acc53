import StreamMemory.Text.Description
import StreamMemory.Text.Quoted

/-!
# Failures

Why a request could not be met. A failure is a chain of causes: an invalid state wraps the failure
it comes from, and every other failure ends the chain.
-/

set_option autoImplicit false

namespace StreamMemory

inductive AllocFailure where
  | outOfMemory | unsupportedAlignment | sizeOverflow
  deriving DecidableEq, Repr

namespace AllocFailure

def message : AllocFailure → String
  | outOfMemory => "out of memory"
  | unsupportedAlignment => "unsupported alignment"
  | sizeOverflow => "size overflow"

def tag : AllocFailure → String
  | outOfMemory => "OutOfMemory"
  | unsupportedAlignment => "UnsupportedAlignment"
  | sizeOverflow => "SizeOverflow"

end AllocFailure

/-- Some operations of a stream failed while it was drained. -/
structure StreamFailure where
  stream : Nat
  failed : Nat
  deriving DecidableEq, Repr

namespace StreamFailure

def message (f : StreamFailure) : String :=
  toString f.failed ++ " operation(s) on stream " ++ toString f.stream ++ " failed"

def describe (f : StreamFailure) : Description :=
  .record "OperationFailed" [("stream", .nat f.stream), ("failed", .nat f.failed)]

end StreamFailure

inductive Failure where
  | text (message : String)
  | stream (failure : StreamFailure)
  | allocation (bytes alignment : Nat) (reason : AllocFailure)
  | invalidState (cause : Failure)
  deriving DecidableEq, Repr

namespace Failure

def message : Failure → String
  | text m => m
  | stream f => f.message
  | allocation bytes alignment reason =>
    "cannot allocate " ++ toString bytes ++ " bytes aligned to " ++ toString alignment ++ ": "
      ++ reason.message
  | invalidState cause => "resource in invalid state: " ++ cause.message

/-- The failures behind a failure, outermost first. -/
def causes : Failure → List Failure
  | invalidState cause => cause :: cause.causes
  | _ => []

def describe : Failure → Description
  | text m => .atom (quote m)
  | stream f => f.describe
  | allocation bytes alignment reason =>
    .record "Allocation"
      [("bytes", .nat bytes), ("alignment", .nat alignment), ("reason", .atom reason.tag)]
  | invalidState cause => .tuple "InvalidState" [cause.describe]

def isAllocation : Failure → Bool
  | allocation .. => true
  | _ => false

def isInvalidState : Failure → Bool
  | invalidState _ => true
  | _ => false

@[simp] theorem causes_allocation (bytes alignment : Nat) (reason : AllocFailure) :
    (allocation bytes alignment reason).causes = [] := rfl

theorem causes_eq_nil_iff (f : Failure) : f.causes = [] ↔ f.isInvalidState = false := by
  cases f <;> simp [causes, isInvalidState]

/-- Only the innermost failure of a chain is not an invalid state. -/
theorem isInvalidState_dropLast {f g : Failure} (h : g ∈ f.causes.dropLast) :
    g.isInvalidState = true := by
  induction f with
  | invalidState cause ih =>
    rw [causes] at h
    cases hc : cause.causes with
    | nil => simp [hc] at h
    | cons a as =>
      rw [hc, List.dropLast_cons_cons] at h
      rcases List.mem_cons.mp h with rfl | h
      · cases g <;> simp_all [causes, isInvalidState]
      · exact ih (hc ▸ h)
  | _ => simp [causes] at h

end Failure

end StreamMemory
