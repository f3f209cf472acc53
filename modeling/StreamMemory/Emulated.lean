import StreamMemory.Config
import StreamMemory.FreeLists
import StreamMemory.Heap
import StreamMemory.MemoryKind

/-!
# Emulated resources

A stream-ordered resource on top of a heap. `live` gauges the bytes handed out. A released block
stays in the free lists, where only an identical request on the same stream finds it. Bytes in use
and cached bytes together are kept within the capacity.
-/

set_option autoImplicit false

namespace StreamMemory

structure Emulated where
  kind : MemoryKind
  config : Config := {}
  heap : Heap := {}
  free : FreeLists := {}
  live : Gauge := {}
  allocations : Nat := 0
  reuses : Nat := 0
  reclaims : Nat := 0
  deriving DecidableEq, Repr, Inhabited

namespace Emulated

def supports (e : Emulated) (alignment : Nat) : Bool :=
  powerOfTwo alignment && decide (alignment ≤ e.config.maxAlignment)

def footprint (e : Emulated) : Nat := e.live.current + e.free.cachedBytes

def fits (e : Emulated) (bytes : Nat) : Bool := decide (e.footprint + bytes ≤ e.config.capacity)

/-- Takes a cached block. It counts as in use at once, and no room is asked for. -/
def reuse? (e : Emulated) (k : BlockKey) : Option (BlockId × Emulated) :=
  (e.free.pop k).map fun (b, free) =>
    (b, { e with free, live := e.live.add k.bytes, reuses := e.reuses + 1 })

/-- Counts bytes as in use, if there is room. -/
def reserve? (e : Emulated) (bytes : Nat) : Option Emulated :=
  if e.fits bytes then some { e with live := e.live.add bytes } else none

def unreserve (e : Emulated) (bytes : Nat) : Emulated := { e with live := e.live.sub bytes }

def allocated (e : Emulated) (heap : Heap) : Emulated :=
  { e with heap, allocations := e.allocations + 1 }

/-- Keeps a released block for the next identical request. -/
def cache (e : Emulated) (k : BlockKey) (b : BlockId) : Emulated :=
  { e with free := e.free.push k b, live := e.live.sub k.bytes }

/-- Empties the free lists at the beginning of a release pass. -/
def beginPass (e : Emulated) : Emulated :=
  { e with free := {}, reclaims := e.reclaims + 1 }

theorem reserve?_eq_some {e f : Emulated} {bytes : Nat} (h : e.reserve? bytes = some f) :
    f = { e with live := e.live.add bytes } ∧ e.footprint + bytes ≤ e.config.capacity := by
  unfold reserve? at h
  split at h
  · cases h
    exact ⟨rfl, by simpa [fits] using ‹e.fits bytes = true›⟩
  · cases h

/-- Within the capacity sums are exact, since a capacity is a size. -/
theorem sum_of_le {e : Emulated} {bytes : Nat} (h : e.live.current + bytes ≤ e.config.capacity) :
    e.live.sum bytes = e.live.current + bytes :=
  Gauge.sum_of_lt (Nat.lt_of_le_of_lt h e.config.capacity_lt)

theorem sum_of_fits {e : Emulated} {bytes : Nat} (h : e.footprint + bytes ≤ e.config.capacity) :
    e.live.sum bytes = e.live.current + bytes := by
  unfold footprint at h
  exact sum_of_le (by omega)

theorem footprint_reserve {e f : Emulated} {bytes : Nat} (h : e.reserve? bytes = some f) :
    f.footprint = e.footprint + bytes := by
  obtain ⟨rfl, hfits⟩ := reserve?_eq_some h
  have hsum := sum_of_fits hfits
  unfold footprint
  rw [Gauge.current_add, hsum, Nat.add_right_comm]

/-- What was counted for a request is taken off again. -/
theorem current_unreserve {e f : Emulated} {bytes : Nat} (h : e.reserve? bytes = some f) :
    (f.unreserve bytes).live.current = e.live.current := by
  obtain ⟨rfl, hfits⟩ := reserve?_eq_some h
  unfold unreserve
  rw [Gauge.current_sub, Gauge.current_add, sum_of_fits hfits, Nat.add_sub_cancel]

theorem footprint_unreserve {e f : Emulated} {bytes : Nat} (h : e.reserve? bytes = some f) :
    (f.unreserve bytes).footprint = e.footprint := by
  have hcurrent := current_unreserve h
  obtain ⟨rfl, -⟩ := reserve?_eq_some h
  unfold footprint
  rw [hcurrent]
  rfl

theorem reuse?_isSome_iff (e : Emulated) (k : BlockKey) :
    (e.reuse? k).isSome = true ↔ e.free.blocks k ≠ [] := by
  rw [reuse?, Option.isSome_map, ← Option.ne_none_iff_isSome, ne_eq, FreeLists.pop_eq_none_iff]

def describe (e : Emulated) : Description :=
  .record "EmulatedStreamResource"
    [("kind", .atom e.kind.tag), ("config", e.config.describe),
      ("stats", .record "EmulatedStats"
        [("live_bytes", .nat e.live.current), ("peak_bytes", .nat e.live.peak),
          ("cached_bytes", .nat e.free.cachedBytes), ("allocations", .nat e.allocations),
          ("reuses", .nat e.reuses), ("reclaims", .nat e.reclaims)])]

end Emulated

end StreamMemory
