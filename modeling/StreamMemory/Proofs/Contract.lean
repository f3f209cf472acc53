import StreamMemory.Machine.Call

/-!
# The synchronous contract of a backend

A client of a backend allocates and releases, synchronously and in the order of a stream, and
anything may happen to the state in between, so every hook may fail at any call. Each call is
recorded together with the hooks that it used (`Backend.observed`). Whatever fails, a call uses its
hooks in the order of the contract, and every block that the allocation hook handed out is held by
the client or was passed to the release hook (`Client.Contract`).
-/

set_option autoImplicit false

namespace StreamMemory

variable {σ ι : Type}

/-- A block with the request that it was handed out for. -/
structure Grant where
  block : BlockId
  bytes : Nat
  alignment : Nat
  deriving DecidableEq, Repr

/-! ## Hooks -/

/-- A hook that was called, and what it returned. -/
inductive HookUse (ι : Type) where
  | synchronize (stream : ι) (result : Except Failure Unit)
  | allocate (bytes alignment : Nat) (stream : ι) (result : Except Failure BlockId)
  | deallocate (grant : Grant) (stream : ι)

namespace HookUse

def failure? : HookUse ι → Option Failure
  | synchronize _ (.error f) => some f
  | _ => none

def granted? : HookUse ι → Option Grant
  | allocate bytes alignment _ (.ok b) => some ⟨b, bytes, alignment⟩
  | _ => none

def givenBack? : HookUse ι → Option Grant
  | deallocate g _ => some g
  | _ => none

end HookUse

/-- Why synchronizations failed. -/
def failures (us : List (HookUse ι)) : List Failure := us.filterMap HookUse.failure?

/-- What the allocation hook handed out. -/
def granted (us : List (HookUse ι)) : List Grant := us.filterMap HookUse.granted?

/-- What was passed to the release hook. -/
def givenBack (us : List (HookUse ι)) : List Grant := us.filterMap HookUse.givenBack?

theorem granted_append (us vs : List (HookUse ι)) : granted (us ++ vs) = granted us ++ granted vs :=
  List.filterMap_append

theorem givenBack_append (us vs : List (HookUse ι)) :
    givenBack (us ++ vs) = givenBack us ++ givenBack vs :=
  List.filterMap_append

/-- The hooks of a synchronous allocation on the default stream `d`, by what it answers. -/
inductive Bracket (d : ι) (bytes alignment : Nat) :
    Except Failure BlockId → List (HookUse ι) → Prop
  | unsynchronized (f : Failure) :
    Bracket d bytes alignment (.error (.invalidState f)) [.synchronize d (.error f)]
  | refused (f : Failure) :
    Bracket d bytes alignment (.error f)
      [.synchronize d (.ok ()), .allocate bytes alignment d (.error f)]
  | rolledBack (b : BlockId) (f : Failure) :
    Bracket d bytes alignment (.error (.invalidState f))
      [.synchronize d (.ok ()), .allocate bytes alignment d (.ok b), .synchronize d (.error f),
        .deallocate ⟨b, bytes, alignment⟩ d]
  | served (b : BlockId) :
    Bracket d bytes alignment (.ok b)
      [.synchronize d (.ok ()), .allocate bytes alignment d (.ok b), .synchronize d (.ok ())]

namespace Bracket

variable {d : ι} {bytes alignment : Nat} {answer : Except Failure BlockId}
variable {us : List (HookUse ι)} (h : Bracket d bytes alignment answer us)
include h

/-- At most one synchronization fails, and then its failure is the answer. -/
theorem answer_of_failures {f : Failure} (hf : f ∈ failures us) :
    failures us = [f] ∧ answer = .error (.invalidState f) := by
  cases h with
  | unsynchronized g =>
    have hg : f = g := List.mem_singleton.mp hf
    subst hg
    exact ⟨rfl, rfl⟩
  | rolledBack b g =>
    have hg : f = g := List.mem_singleton.mp hf
    subst hg
    exact ⟨rfl, rfl⟩
  | refused g => cases hf
  | served b => cases hf

/-- If no synchronization fails, the answer is that of the allocation hook. -/
theorem answer_mem (hf : failures us = []) :
    HookUse.allocate bytes alignment d answer ∈ us := by
  cases h with
  | unsynchronized g => cases hf
  | rolledBack b g => cases hf
  | refused g => exact .tail _ (.head _)
  | served b => exact .tail _ (.head _)

/-- Unless the allocation hook gave that answer itself, the answer is an invalid state just if a
synchronization failed. -/
theorem invalidState_iff
    (hhook : ∀ f, HookUse.allocate bytes alignment d (.error (.invalidState f)) ∉ us) :
    (∃ f, answer = .error (.invalidState f)) ↔ failures us ≠ [] := by
  constructor
  · rintro ⟨f, rfl⟩ hf
    exact hhook f (h.answer_mem hf)
  · intro hf
    obtain ⟨f, hm⟩ := List.exists_mem_of_ne_nil _ hf
    exact ⟨f, (h.answer_of_failures hm).2⟩

end Bracket

namespace Backend

/-- A backend that also records each hook called on it, the first one first. -/
def observed (k : Backend σ ι) : Backend (σ × List (HookUse ι)) ι where
  defaultStream := k.defaultStream
  synchronize p stream :=
    let (result, s) := k.synchronize p.1 stream
    (result, s, p.2 ++ [.synchronize stream result])
  noteFailure p stream f := (k.noteFailure p.1 stream f, p.2)
  allocateAsync p bytes alignment stream :=
    let (result, s) := k.allocateAsync p.1 bytes alignment stream
    (result, s, p.2 ++ [.allocate bytes alignment stream result])
  deallocateAsync p b bytes alignment stream :=
    (k.deallocateAsync p.1 b bytes alignment stream,
      p.2 ++ [.deallocate ⟨b, bytes, alignment⟩ stream])

section Observed
variable (k : Backend σ ι) (s : σ) (us : List (HookUse ι)) (bytes alignment : Nat)

/-- To be recorded changes neither the answer nor the state, and what is recorded is the bracket of
the answer. -/
theorem observed_allocate :
    ∃ new, Bracket k.defaultStream bytes alignment (k.allocate s bytes alignment).1 new ∧
      k.observed.allocate (s, us) bytes alignment =
        ((k.allocate s bytes alignment).1, (k.allocate s bytes alignment).2, us ++ new) := by
  rcases h₁ : k.synchronize s k.defaultStream with ⟨f | _, s₁⟩
  · rw [allocate_of_synchronize_error h₁]
    refine ⟨_, .unsynchronized f, ?_⟩
    simp [allocate, observed, h₁]
  rcases h₂ : k.allocateAsync s₁ bytes alignment k.defaultStream with ⟨f | b, s₂⟩
  · rw [allocate_of_allocateAsync_error h₁ h₂]
    refine ⟨_, .refused f, ?_⟩
    simp [allocate, observed, h₁, h₂]
  rcases h₃ : k.synchronize s₂ k.defaultStream with ⟨f | _, s₃⟩
  · rw [allocate_of_second_synchronize_error h₁ h₂ h₃]
    refine ⟨_, .rolledBack b f, ?_⟩
    simp [allocate, observed, h₁, h₂, h₃]
  · rw [allocate_of_ok h₁ h₂ h₃]
    refine ⟨_, .served b, ?_⟩
    simp [allocate, observed, h₁, h₂, h₃]

theorem observed_deallocate (b : BlockId) :
    ∃ result, k.observed.deallocate (s, us) b bytes alignment =
      (k.deallocate s b bytes alignment, us ++ [.synchronize k.defaultStream result,
        .deallocate ⟨b, bytes, alignment⟩ k.defaultStream]) := by
  rcases h : k.synchronize s k.defaultStream with ⟨f | _, s₁⟩
  · refine ⟨.error f, ?_⟩
    simp [deallocate, Synchronizer.synchronizeNoThrow, observed, h]
  · refine ⟨.ok (), ?_⟩
    simp [deallocate, Synchronizer.synchronizeNoThrow, observed, h]

end Observed

/-! ## Clients -/

/-- The entry points of a stream-ordered resource. -/
inductive Entry (ι : Type) where
  | allocate (bytes alignment : Nat)
  | release (grant : Grant)
  | allocateAsync (bytes alignment : Nat) (stream : ι)
  | releaseAsync (grant : Grant) (stream : ι)

namespace Entry

/-- What is answered, if anything, and the state that is left. -/
def perform (k : Backend σ ι) (s : σ) : Entry ι → Option (Except Failure BlockId) × σ
  | allocate bytes alignment =>
    (some (k.allocate s bytes alignment).1, (k.allocate s bytes alignment).2)
  | release g => (none, k.deallocate s g.block g.bytes g.alignment)
  | allocateAsync bytes alignment stream =>
    (some (k.allocateAsync s bytes alignment stream).1,
      (k.allocateAsync s bytes alignment stream).2)
  | releaseAsync g stream => (none, k.deallocateAsync s g.block g.bytes g.alignment stream)

/-- The hooks that are called, the first one first. -/
def uses (k : Backend σ ι) (s : σ) (e : Entry ι) : List (HookUse ι) :=
  (e.perform k.observed (s, [])).2.2

/-- What a client holds after it was answered. -/
def settle (answer? : Option (Except Failure BlockId)) (held : List Grant) : Entry ι → List Grant
  | allocate bytes alignment | allocateAsync bytes alignment _ =>
    match answer? with
    | some (.ok b) => ⟨b, bytes, alignment⟩ :: held
    | _ => held
  | release g | releaseAsync g _ => held.erase g

/-- Only what is held is released. -/
def Fair (held : List Grant) : Entry ι → Prop
  | allocate .. | allocateAsync .. => True
  | release g | releaseAsync g _ => g ∈ held

end Entry

/-- A call of an entry point, with its answer and the hooks that it used. -/
structure Exchange (ι : Type) where
  entry : Entry ι
  answer? : Option (Except Failure BlockId)
  uses : List (HookUse ι)

/-- A synchronous call synchronizes the default stream and uses no other. A release is passed to its
hook once, whatever the synchronization says. A call that names a stream does not synchronize. -/
def Exchange.Proper (d : ι) (x : Exchange ι) : Prop :=
  match x.entry with
  | .allocate bytes alignment =>
    ∃ answer, x.answer? = some answer ∧ Bracket d bytes alignment answer x.uses
  | .release g => ∃ result, x.uses = [.synchronize d result, .deallocate g d]
  | .allocateAsync bytes alignment s =>
    ∃ answer, x.answer? = some answer ∧ x.uses = [.allocate bytes alignment s answer]
  | .releaseAsync g s => x.uses = [.deallocate g s]

theorem Entry.proper_perform (k : Backend σ ι) (s : σ) (e : Entry ι) :
    Exchange.Proper k.defaultStream ⟨e, (e.perform k s).1, e.uses k s⟩ := by
  cases e with
  | allocate bytes alignment =>
    obtain ⟨new, hb, ho⟩ := k.observed_allocate s [] bytes alignment
    refine ⟨_, rfl, ?_⟩
    simpa only [uses, perform, ho, List.nil_append] using hb
  | release g =>
    obtain ⟨result, ho⟩ := k.observed_deallocate s [] g.bytes g.alignment g.block
    refine ⟨result, ?_⟩
    simp only [uses, perform, ho, List.nil_append]
  | allocateAsync bytes alignment stream => exact ⟨_, rfl, rfl⟩
  | releaseAsync g stream => rfl

/-- To be recorded changes neither what is answered nor the state that is left. -/
theorem Entry.perform_observed (k : Backend σ ι) (s : σ) (e : Entry ι) :
    e.perform k.observed (s, []) = ((e.perform k s).1, (e.perform k s).2, e.uses k s) := by
  cases e with
  | allocate bytes alignment =>
    obtain ⟨new, -, ho⟩ := k.observed_allocate s [] bytes alignment
    simp only [uses, perform, ho]
  | release g =>
    obtain ⟨result, ho⟩ := k.observed_deallocate s [] g.bytes g.alignment g.block
    simp only [uses, perform, ho]
  | allocateAsync bytes alignment stream => rfl
  | releaseAsync g stream => rfl

/-- What a call is granted goes to its caller or back, and so does what the caller held. -/
theorem Exchange.Proper.balance {d : ι} {x : Exchange ι} (h : x.Proper d) {held : List Grant}
    (hf : x.entry.Fair held) :
    (granted x.uses ++ held).Perm (x.entry.settle x.answer? held ++ givenBack x.uses) := by
  obtain ⟨entry, answer?, us⟩ := x
  cases entry with
  | allocate bytes alignment =>
    obtain ⟨answer, ha, hb⟩ := h
    dsimp only at ha hb
    subst ha
    cases hb with
    | unsynchronized f | refused f => exact .of_eq (List.append_nil held).symm
    | rolledBack b f => exact (List.perm_append_singleton _ held).symm
    | served b => exact .of_eq (List.append_nil _).symm
  | release g =>
    obtain ⟨result, hu⟩ := h
    dsimp only at hu
    subst hu
    exact (List.perm_cons_erase hf).trans (List.perm_append_singleton g _).symm
  | allocateAsync bytes alignment stream =>
    obtain ⟨answer, ha, hu⟩ := h
    dsimp only at ha hu
    subst ha hu
    rcases answer with f | b
    · exact .of_eq (List.append_nil held).symm
    · exact .of_eq (List.append_nil _).symm
  | releaseAsync g stream =>
    have hu : us = [.deallocate g stream] := h
    subst hu
    exact (List.perm_cons_erase hf).trans (List.perm_append_singleton g _).symm

/-- Whoever uses a backend, with what they hold and what they did, the last call first. -/
structure Client (σ ι : Type) where
  state : σ
  held : List Grant := []
  history : List (Exchange ι) := []

/-- A client calls an entry point, or the state changes for some other reason. -/
inductive Move (σ ι : Type) where
  | enter (entry : Entry ι)
  | change (f : σ → σ)

namespace Move

def entry? : Move σ ι → Option (Entry ι)
  | enter e => some e
  | change _ => none

def Fair (held : List Grant) : Move σ ι → Prop
  | enter e => e.Fair held
  | change _ => True

end Move

namespace Client

variable (k : Backend σ ι)

def move (c : Client σ ι) : Move σ ι → Client σ ι
  | .enter e =>
    { state := (e.perform k c.state).2
      held := e.settle (e.perform k c.state).1 c.held
      history := ⟨e, (e.perform k c.state).1, e.uses k c.state⟩ :: c.history }
  | .change f => { c with state := f c.state }

def run (c : Client σ ι) (ms : List (Move σ ι)) : Client σ ι := ms.foldl (move k) c

/-- Every move of a run is fair at the moment at which it is made. -/
def Fair (c : Client σ ι) : List (Move σ ι) → Prop
  | [] => True
  | m :: ms => m.Fair c.held ∧ (c.move k m).Fair ms

/-- The hooks used so far, those of the last call in front. -/
def uses (c : Client σ ι) : List (HookUse ι) := c.history.flatMap Exchange.uses

/-- What each call keeps: the order of the hooks, and the account of the blocks. -/
structure Sound (c : Client σ ι) : Prop where
  proper : ∀ x ∈ c.history, x.Proper k.defaultStream
  conserved : (granted c.uses).Perm (c.held ++ givenBack c.uses)

/-- What a client can count on, whatever fails. -/
structure Contract (c : Client σ ι) : Prop extends Sound k c where
  /-- A failed synchronization is the answer, and it is the only one that failed. -/
  failed : ∀ x ∈ c.history, ∀ bytes alignment, x.entry = .allocate bytes alignment →
    ∀ f ∈ failures x.uses, failures x.uses = [f] ∧ x.answer? = some (.error (.invalidState f))
  otherwise : ∀ x ∈ c.history, ∀ bytes alignment, x.entry = .allocate bytes alignment →
    failures x.uses = [] → ∃ answer, x.answer? = some answer ∧
      HookUse.allocate bytes alignment k.defaultStream answer ∈ x.uses
  invalid : ∀ x ∈ c.history, ∀ bytes alignment, x.entry = .allocate bytes alignment →
    (∀ f, HookUse.allocate bytes alignment k.defaultStream (.error (.invalidState f)) ∉ x.uses) →
    ((∃ f, x.answer? = some (.error (.invalidState f))) ↔ failures x.uses ≠ [])

variable {k}

theorem sound_start (s : σ) : Sound k { state := s } := by
  refine ⟨?_, .nil⟩
  intro x hx
  cases hx

theorem Sound.move {c : Client σ ι} (h : c.Sound k) {m : Move σ ι} (hf : m.Fair c.held) :
    (c.move k m).Sound k := by
  cases m with
  | change f => exact ⟨h.proper, h.conserved⟩
  | enter e =>
    have hp := e.proper_perform k c.state
    refine ⟨List.forall_mem_cons.mpr ⟨hp, h.proper⟩, ?_⟩
    have hold := h.conserved.append_left (granted (e.uses k c.state))
    have hnew := (hp.balance hf).append_right (givenBack c.uses)
    simp only [Client.move, uses, List.flatMap_cons, granted_append, givenBack_append,
      List.append_assoc] at hold hnew ⊢
    exact hold.trans hnew

theorem Sound.run {c : Client σ ι} (h : c.Sound k) {ms : List (Move σ ι)} (hf : c.Fair k ms) :
    (c.run k ms).Sound k := by
  induction ms generalizing c with
  | nil => exact h
  | cons m ms ih => exact ih (h.move hf.1) hf.2

theorem Sound.contract {c : Client σ ι} (h : c.Sound k) : c.Contract k := by
  have hbracket : ∀ x ∈ c.history, ∀ bytes alignment, x.entry = .allocate bytes alignment →
      ∃ answer, x.answer? = some answer ∧
        Bracket k.defaultStream bytes alignment answer x.uses := by
    intro x hx bytes alignment he
    have hp := h.proper x hx
    rwa [Exchange.Proper, he] at hp
  refine ⟨h, ?_, ?_, ?_⟩
  · intro x hx bytes alignment he f hf
    obtain ⟨answer, ha, hb⟩ := hbracket x hx bytes alignment he
    obtain ⟨hsole, rfl⟩ := hb.answer_of_failures hf
    exact ⟨hsole, ha⟩
  · intro x hx bytes alignment he hf
    obtain ⟨answer, ha, hb⟩ := hbracket x hx bytes alignment he
    exact ⟨answer, ha, hb.answer_mem hf⟩
  · intro x hx bytes alignment he hhook
    obtain ⟨answer, ha, hb⟩ := hbracket x hx bytes alignment he
    simpa [ha] using hb.invalidState_iff hhook

theorem history_run (c : Client σ ι) (ms : List (Move σ ι)) :
    ((c.run k ms).history.map Exchange.entry).reverse =
      (c.history.map Exchange.entry).reverse ++ ms.filterMap Move.entry? := by
  induction ms generalizing c with
  | nil => simp [run]
  | cons m ms ih =>
    have hr : c.run k (m :: ms) = (c.move k m).run k ms := rfl
    rw [hr, ih, List.filterMap_cons]
    cases m with
    | enter e => simp [Client.move, Move.entry?]
    | change f => rfl

end Client

/-- Every backend keeps the contract in every run of calls in which only held blocks are released.
Each synchronization may fail or not, since the state may change between any two calls. -/
theorem contract_run (k : Backend σ ι) (s : σ) (ms : List (Move σ ι))
    (hf : Client.Fair k { state := s } ms) :
    Client.Contract k (Client.run k { state := s } ms) ∧
      ((Client.run k { state := s } ms).history.map Exchange.entry).reverse =
        ms.filterMap Move.entry? :=
  ⟨((Client.sound_start s).run hf).contract, Client.history_run { state := s } ms⟩

/-- A client of a recorded backend. The second synchronization of its second allocation fails, and
so does the one of its release. -/
def faultyMoves : List (Move Machine StreamId) :=
  [.enter (.allocate 64 16), .change fun m => m.call (.failSynchronizeAfter (some 1)),
    .enter (.allocate 32 8), .enter (.release ⟨0, 64, 16⟩)]

theorem contract_faulty :
    Client.Fair (Machine.recordedBackend 0) { state := Machine.build {} .recorded } faultyMoves ∧
    Client.Contract (Machine.recordedBackend 0)
      (Client.run (Machine.recordedBackend 0) { state := Machine.build {} .recorded }
        faultyMoves) ∧
    failures (Client.run (Machine.recordedBackend 0) { state := Machine.build {} .recorded }
      faultyMoves).uses = [.text "faulted", .text "faulted"] := by
  have hf : Client.Fair (Machine.recordedBackend 0) { state := Machine.build {} .recorded }
      faultyMoves :=
    ⟨trivial, trivial, trivial, .head _, trivial⟩
  refine ⟨hf, (contract_run _ _ _ hf).1, ?_⟩
  decide

end Backend

end StreamMemory
