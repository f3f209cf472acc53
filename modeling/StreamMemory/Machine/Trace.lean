import StreamMemory.Config
import StreamMemory.Failure
import StreamMemory.MemoryKind
import StreamMemory.Operation

/-!
# Traces

What happens while requests are served, as a list of events: what operations report, which
operations are enqueued and started, which blocks move between the system, the resources and their
callers, the hooks called on a recorded backend, and the entries of the log.
-/

set_option autoImplicit false

namespace StreamMemory

abbrev SyncResult := Except StreamFailure Unit

inductive Report where
  | mark (label : String)
  | panicked
  | wrote
  | read (bytes : List UInt8)
  | enqueued
  | pending (count : Nat)
  /-- The stream is being drained already, so nothing was done. -/
  | busy (stream : StreamId)
  | synchronizing
  | synchronized (result : SyncResult)
  | destroying
  | destroyed (result : SyncResult)
  /-- Whether the resource of the block was still there. -/
  | freed (done : Bool)

inductive StreamName where
  | view (id : StreamId)
  | recorded (id : StreamId)
  deriving DecidableEq, Repr

def StreamName.text : StreamName → String
  | view 0 => "StreamView(default)"
  | view id => "StreamView(" ++ toString id ++ ")"
  | recorded id => "Recorded(" ++ toString id ++ ")"

inductive HookCall where
  | synchronize (stream : StreamId)
  | allocate (stream : StreamId)
  | deallocate (stream : StreamId)
  deriving DecidableEq, Repr

def HookCall.text : HookCall → String
  | synchronize s => "sync " ++ toString s
  | allocate s => "alloc " ++ toString s
  | deallocate s => "free " ++ toString s

inductive LogLevel where
  | trace | debug | warn | error
  deriving DecidableEq, Repr

def LogLevel.name : LogLevel → String
  | trace => "TRACE"
  | debug => "DEBUG"
  | warn => "WARN"
  | error => "ERROR"

inductive LogEntry where
  | resourceCreated (kind : MemoryKind) (config : Config)
  | streamCreated (id : StreamId)
  | operationsFailed (failure : StreamFailure)
  | synchronizeFailed (stream : StreamName) (cause : Failure)
  | allocated (stream : StreamId) (bytes : Nat)
  | reused (stream : StreamId) (bytes : Nat)
  | freed (stream : StreamId) (bytes : Nat)
  | exhausted (kind : MemoryKind) (bytes : Nat)
  | released (kind : MemoryKind) (bytes : Nat)
  | droppedInUse (kind : MemoryKind) (bytes : Nat)
  deriving DecidableEq, Repr

namespace LogEntry

def level : LogEntry → LogLevel
  | resourceCreated .. | operationsFailed .. | released .. => .debug
  | streamCreated .. | allocated .. | reused .. | freed .. => .trace
  | exhausted .. | droppedInUse .. => .warn
  | synchronizeFailed .. => .error

/-- Text of a move of bytes. Addresses are not shown. -/
def moved (stream : StreamId) (verb : String) (bytes : Nat) : String :=
  (StreamName.view stream).text ++ ": " ++ verb ++ " " ++ toString bytes ++ " bytes at <ptr>"

def message : LogEntry → String
  | resourceCreated kind config =>
    "emulated " ++ kind.name ++ " resource: capacity " ++ formatBytes config.capacity
      ++ ", max alignment " ++ toString config.maxAlignment
  | streamCreated id => "created stream " ++ toString id
  | operationsFailed f =>
    "stream " ++ toString f.stream ++ ": " ++ toString f.failed ++ " operation(s) failed"
  | synchronizeFailed stream cause =>
    "synchronize of " ++ stream.text ++ " failed: " ++ cause.message
  | allocated stream bytes => moved stream "allocated" bytes
  | reused stream bytes => moved stream "reused" bytes
  | freed stream bytes => moved stream "freed" bytes
  | exhausted kind bytes =>
    kind.name ++ ": capacity exhausted allocating " ++ formatBytes bytes
      ++ ", reclaiming cached blocks"
  | released kind bytes => kind.name ++ ": released " ++ formatBytes bytes ++ " of cached blocks"
  | droppedInUse kind bytes =>
    kind.name ++ ": dropped with " ++ formatBytes bytes ++ " still allocated"

def line (e : LogEntry) : String := e.level.name ++ " " ++ e.message

/-- The stream whose failed synchronization an entry tells of. -/
def failedStream? : LogEntry → Option StreamId
  | operationsFailed f => some f.stream
  | synchronizeFailed (.view id) _ => some id
  | _ => none

end LogEntry

/-- A block with the request that it was taken from the system for. -/
structure Loan where
  block : BlockId
  resource : ResourceId
  bytes : Nat
  alignment : Nat
  deriving DecidableEq, Repr

inductive Event where
  | reported (stream : StreamId) (report : Report)
  | enqueued (stream : StreamId) (operation : Operation)
  | started (stream : StreamId) (operation : Operation)
  /-- A block was handed out by the system. -/
  | obtained (loan : Loan)
  /-- A block was given back to the system. -/
  | returned (block : BlockId) (layout : Layout)
  /-- A caller was handed a block. -/
  | lent (loan : Loan)
  /-- A caller, or an operation, gave a block up. -/
  | released (loan : Loan)
  /-- A resource got a block back on the stream of a key, and keeps it. -/
  | cached (resource : ResourceId) (key : BlockKey) (block : BlockId)
  | hook (call : HookCall)
  | logged (entry : LogEntry)

namespace Event

def report? : Event → Option (StreamId × Report)
  | reported s r => some (s, r)
  | _ => none

def hook? : Event → Option HookCall
  | hook c => some c
  | _ => none

def entry? : Event → Option LogEntry
  | logged e => some e
  | _ => none

end Event

end StreamMemory
