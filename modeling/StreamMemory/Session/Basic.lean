import StreamMemory.Adaptor

/-!
# Sessions

A session is a machine with numbers for what its user holds: blocks and adaptors. A reference to
something that is not there, and a request that would break a promise of the user, are refused
before anything is done.
-/

set_option autoImplicit false

namespace StreamMemory

/-- The leading bytes of a block that its user can read and write. -/
def windowSize : Nat := 256

/-- What a session knows of a numbered block. -/
structure Holding where
  block : BlockId
  resource : ResourceId
  bytes : Nat
  alignment : Nat
  live : Bool
  deriving DecidableEq, Repr

namespace Holding

def layout (h : Holding) : Layout := ⟨h.bytes, h.alignment⟩

def key (h : Holding) (s : StreamId) : BlockKey := ⟨s, h.bytes, h.alignment⟩

end Holding

inductive Refusal where
  | noSuchResource | noSuchStream | noSuchBlock | noSuchAdaptor
  | notStreamOrdered | notEmulated | notHostAccessible
  | notEqual | typeMismatch
  | blockInUse | resourceInUse
  | outOfWindow | nestedAccess | badLayout
  deriving DecidableEq, Repr

def Refusal.message : Refusal → String
  | noSuchResource => "no such resource"
  | noSuchStream => "no such stream"
  | noSuchBlock => "no such block"
  | noSuchAdaptor => "no such adaptor"
  | notStreamOrdered => "not stream-ordered"
  | notEmulated => "not emulated"
  | notHostAccessible => "not host accessible"
  | notEqual => "not equal"
  | typeMismatch => "type mismatch"
  | blockInUse => "block in use"
  | resourceInUse => "in use"
  | outOfWindow => "out of window"
  | nestedAccess => "nested access"
  | badLayout => "layout"

abbrev Checked := Except Refusal

def demand (condition : Bool) (refusal : Refusal) : Checked Unit :=
  if condition then .ok () else .error refusal

structure Session where
  machine : Machine := {}
  /-- By number of block. -/
  holdings : List Holding := []
  /-- By number of adaptor; an adaptor that was taken apart leaves an empty place. -/
  adaptors : List (Option Adaptor) := []

namespace Session

/-! ## References -/

def resource (s : Session) (r : ResourceId) : Checked Resource :=
  match s.machine.resource? r with
  | some x => .ok x
  | none => .error .noSuchResource

def emulated (s : Session) (r : ResourceId) : Checked Emulated := do
  match (← s.resource r).emulated? with
  | some e => .ok e
  | none => .error .notEmulated

def stream (s : Session) (t : StreamId) : Checked Unit :=
  demand (t < s.machine.streamCount) .noSuchStream

def adaptor (s : Session) (a : Nat) : Checked Adaptor :=
  match s.adaptors[a]?.join with
  | some x => .ok x
  | none => .error .noSuchAdaptor

/-- A block that its user holds. When a resource is dropped, its blocks are gone. -/
def holding (s : Session) (b : Nat) : Checked Holding :=
  match s.holdings[b]? with
  | some h =>
    if h.live && (s.machine.resource? h.resource).isSome then .ok h else .error .noSuchBlock
  | none => .error .noSuchBlock

/-- A block of which a range of bytes can be accessed. -/
def window (s : Session) (b : Nat) (length offset : Nat) : Checked Holding := do
  let h ← s.holding b
  demand (offset + length ≤ min h.bytes windowSize) .outOfWindow
  return h

def notInUse (s : Session) (h : Holding) (except? : Option StreamId) : Checked Unit :=
  demand (!s.machine.inUse h.block except?) .blockInUse

/-- The stream that a synchronous release drains first. -/
def drainedFirst (s : Session) (r : ResourceId) : Option StreamId :=
  (s.machine.emulated? r).map fun _ => defaultStream

def checkRelease (s : Session) (r : ResourceId) (h : Holding) : Checked Unit := do
  demand (s.machine.accepts r h.resource) .notEqual
  s.notInUse h (s.drainedFirst r)

/-! ## Holdings -/

def lose (s : Session) (b : Nat) : Session :=
  { s with holdings := s.holdings.modify b fun h => { h with live := false } }

/-- The user holds a block. It keeps its number if it has one. -/
def hold (s : Session) (h : Holding) : Nat × Session :=
  match s.holdings.findIdx? (fun x => x.block == h.block) with
  | some b => (b, { s with holdings := s.holdings.set b h })
  | none => (s.holdings.length, { s with holdings := s.holdings ++ [h] })

theorem length_holdings_le_hold (s : Session) (h : Holding) :
    s.holdings.length ≤ (s.hold h).2.holdings.length := by
  unfold hold
  split <;> simp

@[simp] theorem length_holdings_lose (s : Session) (b : Nat) :
    (s.lose b).holdings.length = s.holdings.length := by
  simp [lose]

end Session

end StreamMemory
