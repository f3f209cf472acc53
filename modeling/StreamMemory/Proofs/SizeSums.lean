import StreamMemory.Proofs.Sizes

/-!
# Sums and differences of sizes

Of the sums and differences that an emulated resource makes of sizes, one only is tested for
overflow: the sum that tells whether a request fits. All the others are taken as they come out, and
the differences of gauges stop at zero without notice. Here is listed what a call computes in this
way, with the integer that is meant next to the number that is kept.
-/

set_option autoImplicit false

namespace StreamMemory

/-- A sum or a difference that is not tested: the integer that is meant, and what is kept. -/
structure Computed where
  exact : Int
  kept : Nat
  deriving DecidableEq, Repr

namespace Computed

def sum (a b kept : Nat) : Computed := ⟨a + b, kept⟩

def difference (a b kept : Nat) : Computed := ⟨a - b, kept⟩

/-- What is kept is what is meant, and it is a size. -/
def Right (x : Computed) : Prop := x.exact = x.kept ∧ x.kept < sizeLimit

instance : DecidablePred Right := fun x =>
  inferInstanceAs (Decidable (x.exact = x.kept ∧ x.kept < sizeLimit))

variable {a b kept : Nat}

theorem sum_right (h : kept = a + b) (hlt : kept < sizeLimit) : (sum a b kept).Right :=
  ⟨(congrArg Nat.cast h.symm).trans rfl, hlt⟩

theorem difference_right (h : kept + b = a) (hlt : kept < sizeLimit) :
    (difference a b kept).Right := by
  refine ⟨?_, hlt⟩
  change (a : Int) - b = kept
  omega

end Computed

/-! ## What is computed -/

namespace Emulated

/-- A cached block is lent. -/
def reuseSums (before after : Emulated) (bytes : Nat) : List Computed :=
  [.difference before.free.cachedBytes bytes after.free.cachedBytes,
    .sum before.live.current bytes after.live.current]

/-- A block is cached. -/
def cacheSums (before after : Emulated) (bytes : Nat) : List Computed :=
  [.sum before.free.cachedBytes bytes after.free.cachedBytes,
    .difference before.live.current bytes after.live.current]

/-- Bytes are counted as in use if they fit. The sum that is tested for this is left out. -/
def reserveSums (e : Emulated) (bytes : Nat) : List Computed :=
  .sum e.live.current e.free.cachedBytes e.footprint ::
    match e.reserve? bytes with
    | some e' => [.sum e.live.current bytes e'.live.current]
    | none => []

def unreserveSums (e : Emulated) (bytes : Nat) : List Computed :=
  [.difference e.live.current bytes (e.unreserve bytes).live.current]

end Emulated

namespace Machine

def deallocateAsyncSums (m : Machine) (r : ResourceId) (b : BlockId) (k : BlockKey) :
    List Computed :=
  match m.emulated? r with
  | some e => e.cacheSums (e.cache k b) k.bytes
  | none => []

end Machine

namespace Run

/-- Only an act that releases a block computes anything. -/
def stepSums (run : Run) : List Computed :=
  match run.frame.rest with
  | .free r b k :: _ => run.machine.deallocateAsyncSums r b k
  | _ => []

def sums (run : Run) : List Computed :=
  match _h : run.step with
  | .inl _ => []
  | .inr next => run.stepSums ++ next.sums
termination_by run.work
decreasing_by exact work_step _h

theorem sums_of_inl {run : Run} {done : SyncResult × Machine} (h : run.step = .inl done) :
    run.sums = [] := by
  rw [sums]
  split <;> simp_all

theorem sums_of_inr {run next : Run} (h : run.step = .inr next) :
    run.sums = run.stepSums ++ next.sums := by
  rw [sums]
  split <;> simp_all

end Run

namespace Machine

def drainSums (m : Machine) (request : DrainRequest) (s : StreamId) : List Computed :=
  match m.openDrain request s with
  | none => []
  | some (frame, machine) => Run.sums { machine, frame }

/-- The heap of a resource. A resource that is gone had `last`. -/
def heapOf (m : Machine) (r : ResourceId) (last : Heap) : Heap :=
  ((m.emulated? r).map Emulated.heap).getD last

/-- Each block is taken off the account of the heap and added to what was released. -/
def returnSums (m : Machine) (r : ResourceId) (k : BlockKey) (last : Heap) (released : Nat) :
    List BlockId → List Computed
  | [] => []
  | b :: bs =>
    let m' := m.giveBack r b k.bytes k.alignment
    .difference (m.heapOf r last).allocated.current k.bytes
        (m'.heapOf r (last.giveBack k.bytes)).allocated.current ::
      .sum released k.bytes (released + k.bytes) ::
        m'.returnSums r k (last.giveBack k.bytes) (released + k.bytes) bs

def passSums (m : Machine) (r : ResourceId) (last : Heap) (released : Nat) :
    KeyedList BlockKey (List BlockId) → List Computed
  | [] => []
  | (k, bs) :: lists =>
    m.drainSums .synchronize k.stream ++
      ((m.synchronizeNoThrow k.stream).returnSums r k last released bs ++
        (m.releaseKey r k bs).passSums r (last.giveBack (k.bytes * bs.length))
          (released + k.bytes * bs.length) lists)

def releaseCachedSums (m : Machine) (r : ResourceId) : List Computed :=
  match m.emulated? r with
  | none => []
  | some e => (m.setEmulated r e.beginPass).passSums r e.heap 0 (m.arrange e.free.lists)

def dropSums (m : Machine) (r : ResourceId) : List Computed :=
  match m.emulated? r with
  | none => []
  | some e =>
    let m := { m with resources := m.resources.set r none }
    let m := if e.live.current = 0 then m else m.log (.droppedInUse e.kind e.live.current)
    m.passSums r e.heap 0 (m.arrange e.free.lists)

def takeReservedSums (m : Machine) (r : ResourceId) (e : Emulated) (k : BlockKey) :
    List Computed :=
  match m.takeBlock r e.heap k.bytes k.alignment with
  | .error _ => e.unreserveSums k.bytes
  | .ok (_, heap, _) => [.sum e.heap.allocated.current k.bytes heap.allocated.current]

/-- A request to the heap, if there is room. -/
def freshSums (m : Machine) (r : ResourceId) (e : Emulated) (k : BlockKey) : List Computed :=
  e.reserveSums k.bytes ++
    match e.reserve? k.bytes with
    | some e' => m.takeReservedSums r e' k
    | none => []

def reclaimForSums (m : Machine) (r : ResourceId) (e : Emulated) (k : BlockKey) : List Computed :=
  let m := m.log (.exhausted e.kind k.bytes)
  m.releaseCachedSums r ++
    match (m.releaseCached r).2.emulated? r with
    | some e => (m.releaseCached r).2.freshSums r e k
    | none => []

def allocateAsyncSums (m : Machine) (r : ResourceId) (k : BlockKey) : List Computed :=
  match m.emulated? r with
  | none => []
  | some e =>
    if e.supports k.alignment then
      match e.reuse? k with
      | some (_, e') => e.reuseSums e' k.bytes
      | none =>
        m.freshSums r e k ++
          if e.reserve? k.bytes = none ∧ e.config.reclaim = true then m.reclaimForSums r e k
          else []
    else []

/-- A block was obtained for a synchronous request. It goes back if a synchronization fails. -/
def confirmSums (m : Machine) (r : ResourceId) (b : BlockId) (k : BlockKey) : List Computed :=
  m.drainSums .synchronize k.stream ++
    match m.synchronize k.stream with
    | (.error _, m) => m.deallocateAsyncSums r b k
    | (.ok _, _) => []

def allocateSums (m : Machine) (r : ResourceId) (k : BlockKey) : List Computed :=
  m.drainSums .synchronize k.stream ++
    match m.synchronize k.stream with
    | (.error _, _) => []
    | (.ok _, m) =>
      m.allocateAsyncSums r k ++
        match m.allocateAsync r k with
        | (.error _, _) => []
        | (.ok b, m) => m.confirmSums r b k

def deallocateSums (m : Machine) (r : ResourceId) (b : BlockId) (k : BlockKey) : List Computed :=
  m.drainSums .synchronize k.stream ++ (m.synchronizeNoThrow k.stream).deallocateAsyncSums r b k

/-- What a call makes emulated resources compute. Other resources do not drain streams. -/
def callSums (m : Machine) : Call → List Computed
  | .synchronize s | .synchronizeNoThrow s => m.drainSums .synchronize s
  | .destroy s => m.drainSums .destroy s
  | .allocateAsync r k => m.allocateAsyncSums r k
  | .allocate r bytes alignment =>
    if (m.emulated? r).isSome then m.allocateSums r ⟨StreamMemory.defaultStream, bytes, alignment⟩
    else []
  | .releaseAsync r x s =>
    (m.emit (.released x)).deallocateAsyncSums r x.block ⟨s, x.bytes, x.alignment⟩
  | .release r x =>
    if (m.emulated? r).isSome then
      (m.emit (.released x)).deallocateSums r x.block
        ⟨StreamMemory.defaultStream, x.bytes, x.alignment⟩
    else []
  | .releaseCached r => m.releaseCachedSums r
  | .drop r => m.dropSums r
  | _ => []

def runSums (m : Machine) : List Call → List Computed
  | [] => []
  | c :: cs => m.callSums c ++ (m.call c).runSums cs

end Machine

end StreamMemory
