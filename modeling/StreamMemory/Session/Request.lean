import StreamMemory.Session.Script

/-!
# Requests and replies

What a user of a session can ask for, and what is answered.
-/

set_option autoImplicit false

namespace StreamMemory

inductive Request where
  | createSystem
  | createEmulated (kind : MemoryKind) (config : Config)
  | createLenient
  | createDevicePinned (context : DeviceContext)
  | createRecorded
  | createStream
  | streamInfo (stream : StreamId)
  | sameStream (stream other : StreamId)
  | synchronize (stream : StreamId)
  | synchronizeNoThrow (stream : StreamId)
  | destroy (stream : StreamId)
  | enqueue (stream : StreamId) (script : Script)
  | allocate (resource : ResourceId) (bytes alignment : Nat) (stream : Option StreamId)
  | deallocate (resource : ResourceId) (block : Nat) (stream : Option StreamId)
  | write (block : Nat) (byte : UInt8) (length offset : Nat)
  | read (block : Nat) (length offset : Nat)
  | releaseCached (resource : ResourceId)
  | config (resource : ResourceId)
  | describe (resource : ResourceId) (pretty : Bool)
  | info (resource : ResourceId)
  | isEqual (resource other : ResourceId)
  | drop (resource : ResourceId)
  | failSynchronizeAfter (successes : Option Nat)
  | recordedStream (stream : StreamId) (synchronize : Bool)
  | adaptorCreate (resource : ResourceId)
  | adaptorClone (adaptor : Nat)
  | adaptorUnwrap (adaptor : Nat)
  | adaptorEqual (adaptor other : Nat)
  | adaptorDescribe (adaptor : Nat) (pretty : Bool)
  | adaptorInfo (adaptor : Nat)
  | adaptorAllocate (adaptor : Nat) (layout : Layout) (zeroed : Bool)
  | adaptorRelease (adaptor : Nat) (block : Option Nat)
  | adaptorReallocate (adaptor block size : Nat)

inductive Reply where
  | refused (refusal : Refusal)
  | failed (failure : Failure)
  | done
  | resource (number : ResourceId)
  | stream (number : StreamId)
  | adaptor (number : Nat)
  | block (number : Nat) (reused : Bool)
  /-- An adaptor has no block to give. -/
  | noBlock
  | invalidLayout
  | flag (value : Bool)
  | count (n : Nat)
  | text (text : String)
  | bytes (bytes : List UInt8)
  | config (config : Config)
  | streamInfo (name : StreamName) (isDefault : Bool) (pending : Nat)
  | info (kind : MemoryKind) (context : ExecutionContext)
  /-- With whether the adaptor's resource is the resource that it was made for. -/
  | adaptorInfo (kind : MemoryKind) (context : ExecutionContext) (same : Bool)
  | recordedStream (isDefault : Bool)

/-- The reply to a synchronization. -/
def Reply.ofSync : SyncResult → Reply
  | .ok _ => done
  | .error f => failed (.stream f)

end StreamMemory
