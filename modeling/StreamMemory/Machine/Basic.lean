import StreamMemory.Resource
import StreamMemory.Machine.Trace

/-!
# Machines

A machine holds the streams, the resources and the system memory that requests work on. Its trace
lists what happened, the last event first. Stream 0, the default stream, is always there. What is
decided outside of the machine comes from its environment.
-/

set_option autoImplicit false

namespace StreamMemory

def defaultStream : StreamId := 0

/-- The lists of a pass, in some order. -/
abbrev Arrangement (lists : KeyedList BlockKey (List BlockId)) :=
  { order : KeyedList BlockKey (List BlockId) // order.Perm lists }

def Arrangement.asListed (lists : KeyedList BlockKey (List BlockId)) : Arrangement lists :=
  ⟨lists, .refl lists⟩

/-- What is decided outside of a machine, given what happened so far: which layouts the system has
room for, and in which order a release pass comes to the keys of the free lists. -/
structure Environment where
  serves : List Event → Layout → Bool := fun _ l =>
    decide (l.size < spaceLimit) && decide (l.alignment < spaceLimit)
  arrange : List Event → ∀ lists, Arrangement lists := fun _ => .asListed

namespace Environment

/-- Keys are taken as they are listed, and the layout alone decides whether it is served. -/
def serving (serves : Layout → Bool) : Environment where
  serves := fun _ => serves

end Environment

structure Machine where
  streams : Registry Operation := {}
  streamCount : Nat := 1
  /-- By number of creation; a resource that was dropped leaves an empty place. -/
  resources : List (Option Resource) := []
  memory : SystemMemory := {}
  environment : Environment := {}
  /-- How many synchronizations of recorded streams succeed before all later ones fail. -/
  fault : Option Nat := none
  trace : List Event := []

namespace Machine

def emit (m : Machine) (e : Event) : Machine := { m with trace := e :: m.trace }

def report (m : Machine) (s : StreamId) (r : Report) : Machine := m.emit (.reported s r)

def log (m : Machine) (e : LogEntry) : Machine := m.emit (.logged e)

/-! ## Streams -/

def createStream (m : Machine) : StreamId × Machine :=
  (m.streamCount, { m with streamCount := m.streamCount + 1 }.log (.streamCreated m.streamCount))

def enqueue (m : Machine) (s : StreamId) (op : Operation) : Machine :=
  { m with streams := m.streams.enqueue s op }.emit (.enqueued s op)

def pending (m : Machine) (s : StreamId) : Nat := (m.streams.waiting s).length

def waitingAccess (m : Machine) (s : StreamId) (b : BlockId) : Bool :=
  (m.streams.waiting s).any (·.accesses b)

/-- Whether an operation that waits on another stream than `except?` accesses a block. -/
def inUse (m : Machine) (b : BlockId) (except? : Option StreamId) : Bool :=
  m.streams.table.any fun (s, _) => except? != some s && m.waitingAccess s b

/-! ## Resources -/

def resource? (m : Machine) (r : ResourceId) : Option Resource := m.resources[r]?.join

def setResource (m : Machine) (r : ResourceId) (x : Resource) : Machine :=
  { m with resources := m.resources.set r (some x) }

def emulated? (m : Machine) (r : ResourceId) : Option Emulated :=
  (m.resource? r).bind Resource.emulated?

def setEmulated (m : Machine) (r : ResourceId) (e : Emulated) : Machine :=
  m.setResource r (.emulated e)

def create (m : Machine) (x : Resource) : ResourceId × Machine :=
  (m.resources.length, { m with resources := m.resources ++ [some x] })

def createEmulated (m : Machine) (kind : MemoryKind) (config : Config) : ResourceId × Machine :=
  (m.log (.resourceCreated kind config)).create (.emulated { kind, config })

/-- Takes a block from the system on the account of a resource, and says what becomes of its heap. -/
def takeBlock (m : Machine) (r : ResourceId) (heap : Heap) (bytes alignment : Nat) :
    Except Failure (BlockId × Heap × Machine) :=
  match heap.allocate m.memory (m.environment.serves m.trace) bytes alignment with
  | .error f => .error f
  | .ok (b, heap', memory) =>
    .ok (b, heap', { m with memory }.emit (.obtained ⟨b, r, bytes, alignment⟩))

/-- Gives a block back to the system on the account of a resource, if that is still there. -/
def giveBack (m : Machine) (r : ResourceId) (b : BlockId) (bytes alignment : Nat) : Machine :=
  let m := m.emit (.returned b (Heap.layout bytes alignment))
  match m.resource? r with
  | some x => m.setResource r (x.setHeap (x.heap.giveBack bytes))
  | none => m

def cacheBlock (m : Machine) (r : ResourceId) (e : Emulated) (b : BlockId) (k : BlockKey) :
    Machine :=
  ((m.setEmulated r (e.cache k b)).emit (.cached r k b)).log (.freed k.stream k.bytes)

@[simp] theorem streams_emit (m : Machine) (e : Event) : (m.emit e).streams = m.streams := rfl

@[simp] theorem resources_emit (m : Machine) (e : Event) : (m.emit e).resources = m.resources := rfl

@[simp] theorem streams_setResource (m : Machine) (r : ResourceId) (x : Resource) :
    (m.setResource r x).streams = m.streams := rfl

@[simp] theorem streams_cacheBlock (m : Machine) (r : ResourceId) (e : Emulated) (b : BlockId)
    (k : BlockKey) : (m.cacheBlock r e b k).streams = m.streams := rfl

theorem resource?_setResource (m : Machine) {r : ResourceId} (hr : r < m.resources.length)
    (x : Resource) (q : ResourceId) :
    (m.setResource r x).resource? q = if q = r then some x else m.resource? q := by
  unfold resource? setResource
  by_cases h : q = r
  · subst h
    simp [hr]
  · have h' : ¬ r = q := fun e => h e.symm
    simp [h, h']

end Machine

end StreamMemory
