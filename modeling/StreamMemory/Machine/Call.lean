import StreamMemory.Machine.Allocation

/-!
# Calls

What callers can ask of a machine, and runs of calls from a machine that has no resources yet. Each
call is served by the function of its name. The trace notes which blocks callers are handed and give
up, so it tells at any time which blocks are on loan.
-/

set_option autoImplicit false

namespace StreamMemory

inductive Blueprint where
  | system
  | emulated (kind : MemoryKind) (config : Config)
  | lenient
  | devicePinned (context : DeviceContext)
  | recorded
  deriving DecidableEq, Repr

inductive Call where
  | build (blueprint : Blueprint)
  | createStream
  | enqueue (stream : StreamId) (operation : Operation)
  | synchronize (stream : StreamId)
  | synchronizeNoThrow (stream : StreamId)
  | destroy (stream : StreamId)
  | allocateAsync (resource : ResourceId) (key : BlockKey)
  | allocate (resource : ResourceId) (bytes alignment : Nat)
  /-- Gives a block up through a resource, which need not be the one that it came from. -/
  | releaseAsync (resource : ResourceId) (loan : Loan) (stream : StreamId)
  | release (resource : ResourceId) (loan : Loan)
  | releaseCached (resource : ResourceId)
  | drop (resource : ResourceId)
  | write (block : BlockId) (byte : UInt8) (length offset : Nat)
  | copy (source target : BlockId) (length : Nat)
  | failSynchronizeAfter (successes : Option Nat)
  | synchronizeRecorded (stream : StreamId)

namespace Machine

def build (m : Machine) : Blueprint → Machine
  | .system => (m.create (.system {})).2
  | .emulated kind config => (m.createEmulated kind config).2
  | .lenient => (m.create (.lenient {})).2
  | .devicePinned context => (m.create (.devicePinned context {})).2
  | .recorded => (m.create (.recorded {})).2

/-- Notes the block that a request was served with. -/
def lend (r : ResourceId) (bytes alignment : Nat) : Except Failure BlockId × Machine → Machine
  | (.ok b, m) => m.emit (.lent ⟨b, r, bytes, alignment⟩)
  | (.error _, m) => m

/-- Only stream-ordered resources have the requests that name a stream. Nothing is released through
a resource that was dropped. -/
def call (m : Machine) : Call → Machine
  | .build blueprint => m.build blueprint
  | .createStream => m.createStream.2
  | .enqueue s op => m.enqueue s op
  | .synchronize s => (m.synchronize s).2
  | .synchronizeNoThrow s => m.synchronizeNoThrow s
  | .destroy s => (m.destroy s).2
  | .allocateAsync r k =>
    match m.backend? r with
    | some backend =>
      lend r k.bytes k.alignment (backend.allocateAsync m k.bytes k.alignment k.stream)
    | none => m
  | .allocate r bytes alignment => lend r bytes alignment (m.allocate r bytes alignment)
  | .releaseAsync r x s =>
    match m.backend? r with
    | some backend => backend.deallocateAsync (m.emit (.released x)) x.block x.bytes x.alignment s
    | none => m
  | .release r x =>
    match m.resource? r with
    | some _ => (m.emit (.released x)).deallocate r x.block x.bytes x.alignment
    | none => m
  | .releaseCached r => (m.releaseCached r).2
  | .drop r => m.drop r
  | .write b byte length offset => { m with memory := m.memory.write b byte length offset }
  | .copy source target length => { m with memory := m.memory.copy source target length }
  | .failSynchronizeAfter successes => { m with fault := successes }
  | .synchronizeRecorded s => recordedStreams.synchronizeNoThrow m s

def run (m : Machine) (cs : List Call) : Machine := cs.foldl call m

/-- A machine without resources in some environment. -/
def start (env : Environment) : Machine := { environment := env }

/-- Every call of a run keeps a law at the moment at which it is made. -/
def Obeys (law : Machine → Call → Prop) (m : Machine) : List Call → Prop
  | [] => True
  | c :: cs => law m c ∧ (m.call c).Obeys law cs

instance Obeys.decidable (law : Machine → Call → Prop) [∀ m c, Decidable (law m c)] :
    (m : Machine) → (cs : List Call) → Decidable (m.Obeys law cs)
  | _, [] => .isTrue trivial
  | m, c :: cs =>
    have := Obeys.decidable law (m.call c) cs
    inferInstanceAs (Decidable (law m c ∧ (m.call c).Obeys law cs))

@[simp] theorem run_nil (m : Machine) : m.run [] = m := rfl

@[simp] theorem run_cons (m : Machine) (c : Call) (cs : List Call) :
    m.run (c :: cs) = (m.call c).run cs := rfl

theorem run_append (m : Machine) (cs ds : List Call) : m.run (cs ++ ds) = (m.run cs).run ds :=
  List.foldl_append

theorem obeys_any (m : Machine) (cs : List Call) : m.Obeys (fun _ _ => True) cs := by
  induction cs generalizing m with
  | nil => trivial
  | cons c cs ih => exact ⟨trivial, ih _⟩

theorem obeys_append {law : Machine → Call → Prop} {m : Machine} {cs ds : List Call} :
    m.Obeys law (cs ++ ds) ↔ m.Obeys law cs ∧ (m.run cs).Obeys law ds := by
  induction cs generalizing m with
  | nil => exact (true_and _).to_iff.symm
  | cons c cs ih => exact (and_congr_right fun _ => ih).trans and_assoc.symm

theorem Obeys.mono {law law' : Machine → Call → Prop} (h : ∀ m c, law m c → law' m c)
    {m : Machine} {cs : List Call} (ho : m.Obeys law cs) : m.Obeys law' cs := by
  induction cs generalizing m with
  | nil => trivial
  | cons c cs ih => exact ⟨h m c ho.1, ih ho.2⟩

theorem run_induction {law : Machine → Call → Prop} {P : Machine → Prop}
    (step : ∀ m c, law m c → P m → P (m.call c)) {m : Machine} {cs : List Call}
    (ho : m.Obeys law cs) (hm : P m) : P (m.run cs) := by
  induction cs generalizing m with
  | nil => exact hm
  | cons c cs ih => exact ih ho.2 (step m c ho.1 hm)

end Machine

/-! ## Reading a trace -/

namespace Event

def moves : Event → Bool
  | obtained _ | returned .. | lent _ | released _ | cached .. => true
  | _ => false

def works : Event → Bool
  | enqueued .. | started .. => true
  | _ => false

def enqueuedOn? (s : StreamId) : Event → Option Operation
  | enqueued t op => if t = s then some op else none
  | _ => none

def startedOn? (s : StreamId) : Event → Option Operation
  | started t op => if t = s then some op else none
  | _ => none

def obtained? : Event → Option Loan
  | obtained x => some x
  | _ => none

def returned? : Event → Option (BlockId × Layout)
  | returned b l => some (b, l)
  | _ => none

end Event

/-- The operations ever enqueued on a stream, in the order in which they were enqueued. -/
def enqueuedOn (s : StreamId) (trace : List Event) : List Operation :=
  (trace.filterMap (Event.enqueuedOn? s)).reverse

def startedOn (s : StreamId) (trace : List Event) : List Operation :=
  (trace.filterMap (Event.startedOn? s)).reverse

/-- What was enqueued on a stream and not started. -/
def pendingOn (s : StreamId) (trace : List Event) : List Operation :=
  (enqueuedOn s trace).drop (startedOn s trace).length

def obtained (trace : List Event) : List Loan := trace.filterMap Event.obtained?

def returned (trace : List Event) : List (BlockId × Layout) := trace.filterMap Event.returned?

/-- The blocks that callers were handed and did not give up. -/
def onLoan : List Event → List Loan
  | [] => []
  | .lent x :: trace => x :: onLoan trace
  | .released x :: trace => (onLoan trace).erase x
  | _ :: trace => onLoan trace

/-- Whatever was given up was on loan, with the same bytes and alignment. -/
def FairReleases : List Event → Prop
  | [] => True
  | .released x :: trace => x ∈ onLoan trace ∧ FairReleases trace
  | _ :: trace => FairReleases trace

instance FairReleases.decidable : DecidablePred FairReleases
  | [] => .isTrue trivial
  | e :: trace =>
    have h := FairReleases.decidable trace
    match e with
    | .released x => inferInstanceAs (Decidable (x ∈ onLoan trace ∧ FairReleases trace))
    | .reported .. | .enqueued .. | .started .. | .obtained _ | .returned .. | .lent _
    | .cached .. | .hook _ | .logged _ => h

/-- No block was handed out while it was on loan. -/
def FreshLoans : List Event → Prop
  | [] => True
  | .lent x :: trace => x.block ∉ (onLoan trace).map Loan.block ∧ FreshLoans trace
  | _ :: trace => FreshLoans trace

section Quiet
variable {e : Event} (trace : List Event)

theorem obtained_cons (h : e.moves = false) : obtained (e :: trace) = obtained trace := by
  cases e <;> first | rfl | cases h

theorem returned_cons (h : e.moves = false) : returned (e :: trace) = returned trace := by
  cases e <;> first | rfl | cases h

theorem onLoan_cons (h : e.moves = false) : onLoan (e :: trace) = onLoan trace := by
  cases e <;> first | rfl | cases h

theorem fairReleases_cons (h : e.moves = false) :
    FairReleases (e :: trace) ↔ FairReleases trace := by
  cases e <;> first | exact Iff.rfl | cases h

theorem freshLoans_cons (h : e.moves = false) : FreshLoans (e :: trace) ↔ FreshLoans trace := by
  cases e <;> first | exact Iff.rfl | cases h

end Quiet

theorem FairReleases.tail {e : Event} {trace : List Event} (h : FairReleases (e :: trace)) :
    FairReleases trace := by
  cases e with
  | released x => exact h.2
  | _ => exact h

theorem FairReleases.of_suffix {past now : List Event} (hf : FairReleases now)
    (h : past <:+ now) : FairReleases past := by
  obtain ⟨es, rfl⟩ := h
  induction es with
  | nil => exact hf
  | cons e es ih => exact ih hf.tail

end StreamMemory
