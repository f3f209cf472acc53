import StreamMemory.Failure

/-!
# Synchronizers

What resources need to know of streams: which one is the default stream, and how a stream is
synchronized. Synchronizing transforms a state and can fail. Where nobody can be told of a failure,
it is only noted.
-/

set_option autoImplicit false

namespace StreamMemory

structure Synchronizer (σ ι : Type) where
  defaultStream : ι
  synchronize : σ → ι → Except Failure Unit × σ
  noteFailure : σ → ι → Failure → σ

namespace Synchronizer

variable {σ ι : Type}

/-- Never fails: a failure is only noted. -/
def synchronizeNoThrow (k : Synchronizer σ ι) (s : σ) (stream : ι) : σ :=
  match k.synchronize s stream with
  | (.ok _, s) => s
  | (.error f, s) => k.noteFailure s stream f

theorem synchronizeNoThrow_of_ok {k : Synchronizer σ ι} {s s' : σ} {stream : ι}
    (h : k.synchronize s stream = (.ok (), s')) : k.synchronizeNoThrow s stream = s' := by
  simp [synchronizeNoThrow, h]

end Synchronizer

end StreamMemory
