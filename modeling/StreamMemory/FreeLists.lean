import StreamMemory.KeyedList
import StreamMemory.Registry.Basic
import StreamMemory.SystemMemory
import StreamMemory.Total

/-!
# Free lists

Released blocks wait for a request with the same key: the stream on which they were released, their
size and their alignment. Of the blocks with one key, the one released last is taken first. No key
has an empty list.
-/

set_option autoImplicit false

namespace StreamMemory

structure BlockKey where
  stream : StreamId
  bytes : Nat
  alignment : Nat
  deriving DecidableEq, Repr, Inhabited

structure FreeLists where
  lists : KeyedList BlockKey (List BlockId) := []
  cachedBytes : Nat := 0
  deriving DecidableEq, Repr, Inhabited

namespace FreeLists

/-- The blocks with a key, the one released last in front. -/
def blocks (f : FreeLists) (k : BlockKey) : List BlockId := (f.lists.get? k).getD []

def push (f : FreeLists) (k : BlockKey) (b : BlockId) : FreeLists where
  lists := f.lists.put k (b :: f.blocks k)
  cachedBytes := f.cachedBytes + k.bytes

/-- The block with this key that was released last. -/
def pop (f : FreeLists) (k : BlockKey) : Option (BlockId × FreeLists) :=
  match f.blocks k with
  | [] => none
  | b :: bs => some (b,
      { lists := if bs.isEmpty then f.lists.erase k else f.lists.put k bs
        cachedBytes := f.cachedBytes - k.bytes })

/-- The bytes that a list of keys with their blocks stands for. -/
def totalBytes (es : KeyedList BlockKey (List BlockId)) : Nat :=
  total (fun e => e.1.bytes * e.2.length) es

theorem blocks_push (f : FreeLists) (k k' : BlockKey) (b : BlockId) :
    (f.push k b).blocks k' = if k = k' then b :: f.blocks k else f.blocks k' := by
  simp only [push, blocks, KeyedList.get?_put]
  split <;> simp

theorem blocks_pop {f g : FreeLists} {k : BlockKey} {b : BlockId} (h : f.pop k = some (b, g))
    (k' : BlockKey) : f.blocks k' = if k = k' then b :: g.blocks k else g.blocks k' := by
  unfold pop at h
  split at h
  · cases h
  · rename_i b' bs hb
    cases h
    cases bs with
    | nil => by_cases hk : k = k' <;> simp_all [blocks, KeyedList.get?_erase]
    | cons c cs => by_cases hk : k = k' <;> simp_all [blocks, KeyedList.get?_put]

theorem pop_eq_none_iff (f : FreeLists) (k : BlockKey) : f.pop k = none ↔ f.blocks k = [] := by
  unfold pop
  split <;> simp_all

end FreeLists

end StreamMemory
