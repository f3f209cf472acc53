import StreamMemory.Machine.Drain
import StreamMemory.Synchronizer

/-!
# Release passes

A release pass gives every cached block of an emulated resource back to the system. Work that was
enqueued before a block was released may still use it, so the stream of a key is synchronized
before its blocks are given back.
-/

set_option autoImplicit false

namespace StreamMemory

namespace Machine

/-- The streams of a machine. A failure is noted in the log. -/
def views : Synchronizer Machine StreamId where
  defaultStream := StreamMemory.defaultStream
  synchronize m s := ((m.synchronize s).1.mapError .stream, (m.synchronize s).2)
  noteFailure m s f := m.log (.synchronizeFailed (.view s) f)

def synchronizeNoThrow (m : Machine) (s : StreamId) : Machine := views.synchronizeNoThrow m s

def releaseKey (m : Machine) (r : ResourceId) (k : BlockKey) (bs : List BlockId) : Machine :=
  bs.foldl (fun m b => m.giveBack r b k.bytes k.alignment) (m.synchronizeNoThrow k.stream)

/-- Gives back the blocks of all keys, in the order in which the keys are listed. -/
def releaseLists (m : Machine) (r : ResourceId) (lists : KeyedList BlockKey (List BlockId)) :
    Machine :=
  lists.foldl (fun m (k, bs) => m.releaseKey r k bs) m

/-- The order in which a pass that begins now comes to the keys of some free lists. -/
def arrange (m : Machine) (lists : KeyedList BlockKey (List BlockId)) :
    KeyedList BlockKey (List BlockId) :=
  (m.environment.arrange m.trace lists).val

/-- A release pass of a resource. Returns the bytes that were cached. -/
def releaseCached (m : Machine) (r : ResourceId) : Nat × Machine :=
  match m.emulated? r with
  | none => (0, m)
  | some e =>
    let bytes := FreeLists.totalBytes e.free.lists
    let m := (m.setEmulated r e.beginPass).releaseLists r (m.arrange e.free.lists)
    (bytes, m.log (.released e.kind bytes))

/-- Drops a resource. An emulated resource warns of blocks in use and runs a last pass; nothing can
be released to it any more meanwhile. -/
def drop (m : Machine) (r : ResourceId) : Machine :=
  match m.resource? r with
  | none => m
  | some x =>
    let m := { m with resources := m.resources.set r none }
    match x.emulated? with
    | none => m
    | some e =>
      let m := if e.live.current = 0 then m else m.log (.droppedInUse e.kind e.live.current)
      (m.releaseLists r (m.arrange e.free.lists)).log
        (.released e.kind (FreeLists.totalBytes e.free.lists))

theorem arrange_perm (m : Machine) (lists : KeyedList BlockKey (List BlockId)) :
    (m.arrange lists).Perm lists :=
  (m.environment.arrange m.trace lists).property

theorem totalBytes_arrange (m : Machine) (lists : KeyedList BlockKey (List BlockId)) :
    FreeLists.totalBytes (m.arrange lists) = FreeLists.totalBytes lists :=
  total_perm _ (m.arrange_perm lists)

@[simp] theorem releaseLists_nil (m : Machine) (r : ResourceId) : m.releaseLists r [] = m := rfl

theorem releaseLists_cons (m : Machine) (r : ResourceId) (k : BlockKey) (bs : List BlockId)
    (lists : KeyedList BlockKey (List BlockId)) :
    m.releaseLists r ((k, bs) :: lists) = (m.releaseKey r k bs).releaseLists r lists := rfl

/-- A property of machines that no block given back breaks. -/
theorem releaseKey_induction {P : Machine → Prop} {m : Machine} {r : ResourceId} {k : BlockKey}
    (giveBack : ∀ n b, P n → P (n.giveBack r b k.bytes k.alignment)) (bs : List BlockId)
    (h : P (m.synchronizeNoThrow k.stream)) : P (m.releaseKey r k bs) := by
  unfold releaseKey
  generalize m.synchronizeNoThrow k.stream = n at h
  induction bs generalizing n with
  | nil => exact h
  | cons b bs ih => exact ih _ (giveBack n b h)

end Machine

end StreamMemory
