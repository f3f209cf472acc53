import StreamMemory.Proofs.Admission
import StreamMemory.Proofs.Passes
import StreamMemory.Proofs.Settling

/-!
# Passes in any order

A release pass goes through the keys of the free lists in no particular order. It gives back what
was cached, and what it does to the accounts of its resource does not depend on the operations that
it starts. The rest does: operations can release blocks to the resource and drain other streams
(`meddling`). If they open no drains, a pass starts operations of those streams only on which blocks
are cached; and if they keep to their own stream as well, nothing depends on the order of the keys.
-/

set_option autoImplicit false

namespace StreamMemory

namespace Machine

variable {m : Machine} {r : ResourceId} {e : Emulated}

theorem Tidy.releaseKey (h : m.Tidy) {allowed : StreamId → Act → Bool}
    (hm : m.Restrained allowed) (r : ResourceId) (k : BlockKey) (bs : List BlockId) :
    (m.releaseKey r k bs).Tidy := by
  refine ⟨(hm.releaseKey r k bs).orderly, ?_⟩
  rw [streams_releaseKey]
  exact (h.drain .synchronize k.stream).needed

end Machine

end StreamMemory
