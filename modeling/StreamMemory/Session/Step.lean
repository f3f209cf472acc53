import StreamMemory.Session.Request

/-!
# Serving requests

`Session.serve` checks a request and has the machine do it. A refused request changes nothing, but
for the blocks that a refused script has lost.
-/

set_option autoImplicit false

namespace StreamMemory

namespace Session

def withMachine (s : Session) (m : Machine) : Session := { s with machine := m }

/-- The reply to a checked request. -/
def settle (s : Session) : Checked (Reply × Session) → Reply × Session
  | .ok outcome => outcome
  | .error e => (.refused e, s)

/-- Replies with a block that the machine has handed out. A block that was there before the request
came from a free list. -/
def receive (s : Session) (r : ResourceId) (l : Layout) (b : BlockId) (m : Machine) :
    Reply × Session :=
  let (n, t) := (s.withMachine m).hold
    { block := b, resource := r, bytes := l.size, alignment := l.alignment, live := true }
  (.block n (b < s.machine.memory.blocks.length), t)

/-- Replies to an allocation. -/
def received (s : Session) (r : ResourceId) (l : Layout) :
    Except Failure BlockId × Machine → Reply × Session
  | (.ok b, m) => s.receive r l b m
  | (.error f, m) => (.failed f, s.withMachine m)

/-- Replies to an allocation through an adaptor. -/
def receivedPlain (s : Session) (a : Adaptor) (l : Layout) :
    Option BlockId × Machine → Reply × Session
  | (some b, m) => s.receive a.resource l b m
  | (none, m) => (.noBlock, s.withMachine m)

/-! ## Resources and streams -/

def create (s : Session) (created : ResourceId × Machine) : Reply × Session :=
  (.resource created.1, s.withMachine created.2)

def streamInfo (s : Session) (t : StreamId) : Checked (Reply × Session) := do
  s.stream t
  return (.streamInfo (.view t) (t == defaultStream) (s.machine.pending t), s)

def sameStream (s : Session) (t u : StreamId) : Checked (Reply × Session) := do
  s.stream t
  s.stream u
  return (.flag (t == u), s)

def synchronize (s : Session) (t : StreamId) : Checked (Reply × Session) := do
  s.stream t
  let (result, m) := s.machine.synchronize t
  return (.ofSync result, s.withMachine m)

def synchronizeNoThrow (s : Session) (t : StreamId) : Checked (Reply × Session) := do
  s.stream t
  return (.done, s.withMachine (s.machine.synchronizeNoThrow t))

def destroy (s : Session) (t : StreamId) : Checked (Reply × Session) := do
  s.stream t
  let (result, m) := s.machine.destroy t
  return (.ofSync result, s.withMachine m)

def enqueue (s : Session) (t : StreamId) (script : Script) : Reply × Session :=
  match s.stream t with
  | .error e => (.refused e, s)
  | .ok _ =>
    match s.resolve t script with
    | (.error e, s) => (.refused e, s)
    | (.ok op, s) => (.done, s.withMachine (s.machine.enqueue t op))

def releaseCached (s : Session) (r : ResourceId) : Checked (Reply × Session) := do
  let _ ← s.emulated r
  let (bytes, m) := s.machine.releaseCached r
  return (.count bytes, s.withMachine m)

def config (s : Session) (r : ResourceId) : Checked (Reply × Session) := do
  return (.config (← s.emulated r).config, s)

def describe (s : Session) (r : ResourceId) (pretty : Bool) : Checked (Reply × Session) := do
  match ← s.resource r with
  | .system heap => return (.text (heap.describe.text pretty), s)
  | .emulated e => return (.text (e.describe.text pretty), s)
  | _ => throw .notEmulated

def info (s : Session) (r : ResourceId) : Checked (Reply × Session) := do
  let x ← s.resource r
  return (.info x.kind x.context, s)

/-- Whether the resource with the first number says that the other one is equal. -/
def equality (s : Session) (r other : ResourceId) : Checked Bool :=
  match s.machine.isEqual? r other with
  | some b => .ok b
  | none => .error .typeMismatch

def isEqual (s : Session) (r other : ResourceId) : Checked (Reply × Session) := do
  let _ ← s.resource r
  let _ ← s.resource other
  return (.flag (← s.equality r other), s)

def drop (s : Session) (r : ResourceId) : Checked (Reply × Session) := do
  let _ ← s.resource r
  demand (s.adaptors.all fun a => a != some ⟨r⟩) .resourceInUse
  return (.done, s.withMachine (s.machine.drop r))

def failSynchronizeAfter (s : Session) (successes : Option Nat) : Reply × Session :=
  (.done, s.withMachine { s.machine with fault := successes })

/-- Recorded streams can be synchronized without any resource. -/
def recordedStream (s : Session) (t : StreamId) (synchronize : Bool) : Reply × Session :=
  (.recordedStream (t == Machine.recordedStreams.defaultStream),
    if synchronize then s.withMachine (Machine.recordedStreams.synchronizeNoThrow s.machine t)
    else s)

/-! ## Blocks -/

/-- The stream that a request to a resource names. Those of a recorded backend are not numbered by
the session. -/
def orderedOn (s : Session) (x : Resource) (t : StreamId) : Checked Unit :=
  match x with
  | .recorded _ => .ok ()
  | _ => s.stream t

def allocate (s : Session) (r : ResourceId) (l : Layout) : Option StreamId → Checked (Reply × Session)
  | none => do
    let _ ← s.resource r
    return s.received r l (s.machine.allocate r l.size l.alignment)
  | some t => do
    let x ← s.resource r
    s.orderedOn x t
    match x with
    | .emulated _ =>
      return s.received r l (s.machine.allocateAsync r ⟨t, l.size, l.alignment⟩)
    | .recorded _ =>
      return s.received r l
        ((Machine.recordedBackend r).allocateAsync s.machine l.size l.alignment t)
    | _ => throw .notStreamOrdered

def deallocate (s : Session) (r : ResourceId) (b : Nat) : Option StreamId → Checked (Reply × Session)
  | none => do
    let _ ← s.resource r
    let h ← s.holding b
    s.checkRelease r h
    return (.done,
      (s.lose b).withMachine (s.machine.deallocate r h.block h.bytes h.alignment))
  | some t => do
    let x ← s.resource r
    let h ← s.holding b
    demand (s.machine.accepts r h.resource) .notEqual
    s.orderedOn x t
    match x with
    | .emulated _ =>
      s.notInUse h (some t)
      return (.done, (s.lose b).withMachine (s.machine.deallocateAsync r h.block (h.key t)))
    | .recorded _ =>
      s.notInUse h none
      return (.done, (s.lose b).withMachine
        ((Machine.recordedBackend r).deallocateAsync s.machine h.block h.bytes h.alignment t))
    | _ =>
      s.notInUse h (some t)
      throw .notStreamOrdered

def write (s : Session) (b : Nat) (byte : UInt8) (length offset : Nat) :
    Checked (Reply × Session) := do
  let h ← s.window b length offset
  let m := s.machine
  return (.done, s.withMachine { m with memory := m.memory.write h.block byte length offset })

def read (s : Session) (b : Nat) (length offset : Nat) : Checked (Reply × Session) := do
  let h ← s.window b length offset
  return (.bytes (s.machine.memory.read h.block length offset), s)

/-! ## Adaptors -/

def addAdaptor (s : Session) (a : Adaptor) : Reply × Session :=
  (.adaptor s.adaptors.length, { s with adaptors := s.adaptors ++ [some a] })

def adaptorCreate (s : Session) (r : ResourceId) : Checked (Reply × Session) := do
  let x ← s.resource r
  demand x.kind.hostAccessible .notHostAccessible
  return s.addAdaptor ⟨r⟩

def adaptorClone (s : Session) (a : Nat) : Checked (Reply × Session) := do
  return s.addAdaptor (← s.adaptor a)

/-- The resource of an adaptor. It cannot have been dropped. -/
def adapted (s : Session) (a : Nat) : Checked (Adaptor × Resource) := do
  let x ← s.adaptor a
  return (x, ← s.resource x.resource)

def adaptorUnwrap (s : Session) (a : Nat) : Checked (Reply × Session) := do
  let (_, x) ← s.adapted a
  return (.text x.kind.name, { s with adaptors := s.adaptors.set a none })

def adaptorEqual (s : Session) (a other : Nat) : Checked (Reply × Session) := do
  let (x, rx) ← s.adapted a
  let (y, ry) ← s.adapted other
  demand (rx.comparable ry) .typeMismatch
  return (.flag (x.isEqual y s.machine), s)

def adaptorDescribe (s : Session) (a : Nat) (pretty : Bool) : Checked (Reply × Session) := do
  let (_, x) ← s.adapted a
  return (.text ((Adaptor.describe x.kind).text pretty), s)

def adaptorInfo (s : Session) (a : Nat) : Checked (Reply × Session) := do
  let (_, x) ← s.adapted a
  return (.adaptorInfo x.kind x.context true, s)

def adaptorAllocate (s : Session) (a : Nat) (l : Layout) (zeroed : Bool) :
    Checked (Reply × Session) := do
  let x ← s.adaptor a
  if l.valid then
    return s.receivedPlain x l
      (if zeroed then x.allocateZeroed s.machine l else x.allocate s.machine l)
  else return (.invalidLayout, s)

def adaptorRelease (s : Session) (a : Nat) : Option Nat → Checked (Reply × Session)
  | none => do
    let x ← s.adaptor a
    return (.done, s.withMachine (x.release s.machine none ⟨0, 1⟩))
  | some b => do
    let x ← s.adaptor a
    let h ← s.holding b
    s.checkRelease x.resource h
    return (.done, (s.lose b).withMachine (x.release s.machine (some h.block) h.layout))

def adaptorReallocate (s : Session) (a b size : Nat) : Checked (Reply × Session) := do
  let x ← s.adaptor a
  let h ← s.holding b
  demand (h.resource == x.resource) .notEqual
  s.notInUse h (s.drainedFirst x.resource)
  let l : Layout := { h.layout with size }
  demand (size != 0 && l.valid) .badLayout
  match x.reallocate s.machine h.block h.layout size with
  | (some c, m) => return (s.lose b).receive x.resource l c m
  | (none, m) => return (.noBlock, s.withMachine m)

def serve (s : Session) : Request → Reply × Session
  | .createSystem => s.create (s.machine.create (.system {}))
  | .createEmulated kind config => s.create (s.machine.createEmulated kind config)
  | .createLenient => s.create (s.machine.create (.lenient {}))
  | .createDevicePinned context => s.create (s.machine.create (.devicePinned context {}))
  | .createRecorded => s.create (s.machine.create (.recorded {}))
  | .createStream =>
    (.stream s.machine.createStream.1, s.withMachine s.machine.createStream.2)
  | .streamInfo t => s.settle (s.streamInfo t)
  | .sameStream t u => s.settle (s.sameStream t u)
  | .synchronize t => s.settle (s.synchronize t)
  | .synchronizeNoThrow t => s.settle (s.synchronizeNoThrow t)
  | .destroy t => s.settle (s.destroy t)
  | .enqueue t script => s.enqueue t script
  | .allocate r bytes alignment t => s.settle (s.allocate r ⟨bytes, alignment⟩ t)
  | .deallocate r b t => s.settle (s.deallocate r b t)
  | .write b byte length offset => s.settle (s.write b byte length offset)
  | .read b length offset => s.settle (s.read b length offset)
  | .releaseCached r => s.settle (s.releaseCached r)
  | .config r => s.settle (s.config r)
  | .describe r pretty => s.settle (s.describe r pretty)
  | .info r => s.settle (s.info r)
  | .isEqual r other => s.settle (s.isEqual r other)
  | .drop r => s.settle (s.drop r)
  | .failSynchronizeAfter n => s.failSynchronizeAfter n
  | .recordedStream t synchronize => s.recordedStream t synchronize
  | .adaptorCreate r => s.settle (s.adaptorCreate r)
  | .adaptorClone a => s.settle (s.adaptorClone a)
  | .adaptorUnwrap a => s.settle (s.adaptorUnwrap a)
  | .adaptorEqual a other => s.settle (s.adaptorEqual a other)
  | .adaptorDescribe a pretty => s.settle (s.adaptorDescribe a pretty)
  | .adaptorInfo a => s.settle (s.adaptorInfo a)
  | .adaptorAllocate a l zeroed => s.settle (s.adaptorAllocate a l zeroed)
  | .adaptorRelease a b => s.settle (s.adaptorRelease a b)
  | .adaptorReallocate a b size => s.settle (s.adaptorReallocate a b size)

theorem settle_refused (s : Session) (e : Refusal) : s.settle (.error e) = (.refused e, s) := rfl

end Session

end StreamMemory
