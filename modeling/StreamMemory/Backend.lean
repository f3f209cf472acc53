import StreamMemory.Synchronizer
import StreamMemory.SystemMemory

/-!
# Stream-ordered backends

A backend allocates and releases in the order of a stream. Its hooks transform a state. From them
comes a synchronous contract: an allocation is made on the default stream between two
synchronizations of that stream, so the block can be used anywhere; a release synchronizes the
default stream first and is made in any case.
-/

set_option autoImplicit false

namespace StreamMemory

structure Backend (σ ι : Type) extends Synchronizer σ ι where
  allocateAsync : σ → Nat → Nat → ι → Except Failure BlockId × σ
  deallocateAsync : σ → BlockId → Nat → Nat → ι → σ

namespace Backend

variable {σ ι : Type}

/-- If the second synchronization fails, the block is released before the failure is reported. -/
def allocate (k : Backend σ ι) (s : σ) (bytes alignment : Nat) : Except Failure BlockId × σ :=
  match k.synchronize s k.defaultStream with
  | (.error f, s) => (.error (.invalidState f), s)
  | (.ok _, s) =>
    match k.allocateAsync s bytes alignment k.defaultStream with
    | (.error f, s) => (.error f, s)
    | (.ok b, s) =>
      match k.synchronize s k.defaultStream with
      | (.error f, s) =>
        (.error (.invalidState f), k.deallocateAsync s b bytes alignment k.defaultStream)
      | (.ok _, s) => (.ok b, s)

def deallocate (k : Backend σ ι) (s : σ) (b : BlockId) (bytes alignment : Nat) : σ :=
  k.deallocateAsync (k.synchronizeNoThrow s k.defaultStream) b bytes alignment k.defaultStream

/-- A failed first synchronization is the end of an allocation. -/
theorem allocate_of_synchronize_error {k : Backend σ ι} {s s₁ : σ} {f : Failure}
    (h : k.synchronize s k.defaultStream = (.error f, s₁)) (bytes alignment : Nat) :
    k.allocate s bytes alignment = (.error (.invalidState f), s₁) := by
  simp [allocate, h]

section Synchronized
variable {k : Backend σ ι} {s s₁ s₂ s₃ : σ} {bytes alignment : Nat}
variable (h₁ : k.synchronize s k.defaultStream = (.ok (), s₁))
include h₁

theorem allocate_of_allocateAsync_error {f : Failure}
    (h₂ : k.allocateAsync s₁ bytes alignment k.defaultStream = (.error f, s₂)) :
    k.allocate s bytes alignment = (.error f, s₂) := by
  simp [allocate, h₁, h₂]

theorem allocate_of_second_synchronize_error {b : BlockId} {f : Failure}
    (h₂ : k.allocateAsync s₁ bytes alignment k.defaultStream = (.ok b, s₂))
    (h₃ : k.synchronize s₂ k.defaultStream = (.error f, s₃)) :
    k.allocate s bytes alignment =
      (.error (.invalidState f), k.deallocateAsync s₃ b bytes alignment k.defaultStream) := by
  simp [allocate, h₁, h₂, h₃]

theorem allocate_of_ok {b : BlockId}
    (h₂ : k.allocateAsync s₁ bytes alignment k.defaultStream = (.ok b, s₂))
    (h₃ : k.synchronize s₂ k.defaultStream = (.ok (), s₃)) :
    k.allocate s bytes alignment = (.ok b, s₃) := by
  simp [allocate, h₁, h₂, h₃]

end Synchronized

/-- A block that was allocated was there before the second synchronization. -/
theorem allocate_eq_ok {k : Backend σ ι} {s s' : σ} {bytes alignment : Nat} {b : BlockId}
    (h : k.allocate s bytes alignment = (.ok b, s')) :
    ∃ s₁ s₂, k.synchronize s k.defaultStream = (.ok (), s₁) ∧
      k.allocateAsync s₁ bytes alignment k.defaultStream = (.ok b, s₂) ∧
        k.synchronize s₂ k.defaultStream = (.ok (), s') := by
  rcases h₁ : k.synchronize s k.defaultStream with ⟨f | _, s₁⟩
  · rw [allocate_of_synchronize_error h₁] at h
    cases h
  rcases h₂ : k.allocateAsync s₁ bytes alignment k.defaultStream with ⟨f | c, s₂⟩
  · rw [allocate_of_allocateAsync_error h₁ h₂] at h
    cases h
  rcases h₃ : k.synchronize s₂ k.defaultStream with ⟨f | _, s₃⟩
  · rw [allocate_of_second_synchronize_error h₁ h₂ h₃] at h
    cases h
  · rw [allocate_of_ok h₁ h₂ h₃] at h
    cases h
    exact ⟨s₁, s₂, rfl, h₂, h₃⟩

/-- What holds after an allocation: `H b` if it got block `b`, and `P` if it failed. -/
def Outcome (P : σ → Prop) (H : BlockId → σ → Prop) : Except Failure BlockId × σ → Prop
  | (.ok b, s) => H b s
  | (.error _, s) => P s

theorem Outcome.mono {P P' : σ → Prop} {H H' : BlockId → σ → Prop} (hP : ∀ s, P s → P' s)
    (hH : ∀ b s, H b s → H' b s) {o : Except Failure BlockId × σ} (h : Outcome P H o) :
    Outcome P' H' o := by
  rcases o with ⟨_ | b, s⟩
  · exact hP s h
  · exact hH b s h

/-- While it holds a block, an allocation keeps `H`; without one it keeps `P`. -/
theorem allocate_outcome {k : Backend σ ι} {P : σ → Prop} {H : BlockId → σ → Prop}
    (bytes alignment : Nat)
    (synchronize : ∀ s result s', P s → k.synchronize s k.defaultStream = (result, s') → P s')
    (hold : ∀ b s result s', H b s → k.synchronize s k.defaultStream = (result, s') → H b s')
    (serve : ∀ s, P s → Outcome P H (k.allocateAsync s bytes alignment k.defaultStream))
    (give : ∀ b s, H b s → P (k.deallocateAsync s b bytes alignment k.defaultStream))
    {s : σ} (h : P s) : Outcome P H (k.allocate s bytes alignment) := by
  rcases h₁ : k.synchronize s k.defaultStream with ⟨f | _, s₁⟩
  · rw [allocate_of_synchronize_error h₁]
    exact synchronize s _ s₁ h h₁
  have hserved := serve s₁ (synchronize s _ s₁ h h₁)
  rcases h₂ : k.allocateAsync s₁ bytes alignment k.defaultStream with ⟨f | b, s₂⟩
  · rw [h₂] at hserved
    rw [allocate_of_allocateAsync_error h₁ h₂]
    exact hserved
  rw [h₂] at hserved
  rcases h₃ : k.synchronize s₂ k.defaultStream with ⟨f | _, s₃⟩
  · rw [allocate_of_second_synchronize_error h₁ h₂ h₃]
    exact give b s₃ (hold b s₂ _ s₃ hserved h₃)
  · rw [allocate_of_ok h₁ h₂ h₃]
    exact hold b s₂ _ s₃ hserved h₃

end Backend

end StreamMemory
