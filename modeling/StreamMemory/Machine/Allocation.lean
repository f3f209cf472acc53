import StreamMemory.Backend
import StreamMemory.Machine.ReleasePass

/-!
# Allocation

Requests to the resources of a machine. An emulated resource serves a request from the free list of
its key, else from the heap if there is room, else after a release pass, and else not at all. A
recorded backend notes each call of a hook. Both get their synchronous requests from the contract
of `Backend`.
-/

set_option autoImplicit false

namespace StreamMemory

def defaultAlignment : Nat := 16

namespace Machine

def outOfMemory {α : Type} (bytes alignment : Nat) : Except Failure α :=
  .error (.allocation bytes alignment .outOfMemory)

/-! ## Requests to a heap -/

def allocateFromHeap (m : Machine) (r : ResourceId) (bytes alignment : Nat) :
    Except Failure BlockId × Machine :=
  match m.resource? r with
  | none => (outOfMemory bytes alignment, m)
  | some x =>
    match m.takeBlock r x.heap bytes alignment with
    | .error f => (.error f, m)
    | .ok (b, heap, m) => (.ok b, m.setResource r (x.setHeap heap))

/-! ## Requests to an emulated resource -/

/-- Asks the heap for bytes that `e` has reserved, and gives them up if the heap refuses. -/
def takeReserved (m : Machine) (r : ResourceId) (e : Emulated) (k : BlockKey) :
    Except Failure BlockId × Machine :=
  match m.takeBlock r e.heap k.bytes k.alignment with
  | .error f => (.error f, m.setEmulated r (e.unreserve k.bytes))
  | .ok (b, heap, m) =>
    (.ok b, (m.setEmulated r (e.allocated heap)).log (.allocated k.stream k.bytes))

/-- Runs a release pass for a request that does not fit, and tries once more. -/
def reclaimFor (m : Machine) (r : ResourceId) (e : Emulated) (k : BlockKey) :
    Except Failure BlockId × Machine :=
  let m := ((m.log (.exhausted e.kind k.bytes)).releaseCached r).2
  match (m.emulated? r).bind (·.reserve? k.bytes) with
  | some e => m.takeReserved r e k
  | none => (outOfMemory k.bytes k.alignment, m)

def allocateAsync (m : Machine) (r : ResourceId) (k : BlockKey) :
    Except Failure BlockId × Machine :=
  match m.emulated? r with
  | none => (outOfMemory k.bytes k.alignment, m)
  | some e =>
    if e.supports k.alignment then
      match e.reuse? k with
      | some (b, e) => (.ok b, (m.setEmulated r e).log (.reused k.stream k.bytes))
      | none =>
        match e.reserve? k.bytes with
        | some e => m.takeReserved r e k
        | none =>
          if e.config.reclaim then m.reclaimFor r e k
          else (outOfMemory k.bytes k.alignment, m)
    else (.error (.allocation k.bytes k.alignment .unsupportedAlignment), m)

def deallocateAsync (m : Machine) (r : ResourceId) (b : BlockId) (k : BlockKey) : Machine :=
  match m.emulated? r with
  | some e => m.cacheBlock r e b k
  | none => m

def emulatedBackend (r : ResourceId) : Backend Machine StreamId where
  toSynchronizer := views
  allocateAsync m bytes alignment stream := m.allocateAsync r { stream, bytes, alignment }
  deallocateAsync m b bytes alignment stream := m.deallocateAsync r b { stream, bytes, alignment }

/-! ## Requests to a recorded backend -/

/-- Synchronizes a recorded stream, which fails once the fault counter has run down. -/
def synchronizeRecorded (m : Machine) (s : StreamId) : Except Failure Unit × Machine :=
  let m := m.emit (.hook (.synchronize s))
  match m.fault with
  | none => (.ok (), m)
  | some 0 => (.error (.text "faulted"), m)
  | some (n + 1) => (.ok (), { m with fault := some n })

/-- The streams of recorded backends. A failure is noted in the log. -/
def recordedStreams : Synchronizer Machine StreamId where
  defaultStream := StreamMemory.defaultStream
  synchronize := synchronizeRecorded
  noteFailure m s f := m.log (.synchronizeFailed (.recorded s) f)

def recordedBackend (r : ResourceId) : Backend Machine StreamId where
  toSynchronizer := recordedStreams
  allocateAsync m bytes alignment s :=
    (m.emit (.hook (.allocate s))).allocateFromHeap r bytes alignment
  deallocateAsync m b bytes alignment s :=
    (m.emit (.hook (.deallocate s))).giveBack r b bytes alignment

/-! ## Requests to any resource -/

def backend? (m : Machine) (r : ResourceId) : Option (Backend Machine StreamId) :=
  match m.resource? r with
  | some (.emulated _) => some (emulatedBackend r)
  | some (.recorded _) => some (recordedBackend r)
  | _ => none

def allocate (m : Machine) (r : ResourceId) (bytes alignment : Nat) :
    Except Failure BlockId × Machine :=
  match m.backend? r with
  | some k => k.allocate m bytes alignment
  | none => m.allocateFromHeap r bytes alignment

def deallocate (m : Machine) (r : ResourceId) (b : BlockId) (bytes alignment : Nat) : Machine :=
  match m.backend? r with
  | some k => k.deallocate m b bytes alignment
  | none => m.giveBack r b bytes alignment

/-- Whether two resources of one kind and sort of context are equal, as the first one says. -/
def isEqual? (m : Machine) (r other : ResourceId) : Option Bool :=
  match m.resource? r, m.resource? other with
  | some x, some y => if x.comparable y then some (r == other || x.acceptsOther y) else none
  | _, _ => none

/-- Whether blocks of `owner` may be released through `r`. -/
def accepts (m : Machine) (r owner : ResourceId) : Bool :=
  r == owner || m.isEqual? r owner == some true

theorem isEqual?_self {m : Machine} {r : ResourceId} {x : Resource} (h : m.resource? r = some x) :
    m.isEqual? r r = some true := by
  simp [isEqual?, h, Resource.comparable_refl]

theorem accepts_self (m : Machine) (r : ResourceId) : m.accepts r r = true := by
  simp [accepts]

end Machine

end StreamMemory
