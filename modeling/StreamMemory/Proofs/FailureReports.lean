import StreamMemory.Proofs.Notices

/-!
# Reports of failed operations

What callers learn of operations that failed. Most calls tell nobody of the drains that they need:
the log says so in place of an answer. A caller who synchronizes or destroys a stream is told of the
drain, and so is one who allocates a block synchronously. So each failure is told once, in the log
or by the answer to a call, and never again by a later call.
-/

set_option autoImplicit false

namespace StreamMemory

/-! ## Calls that answer nothing -/

namespace Machine

variable {past last : List Notice} {due : StreamId → Nat} {m m' : Machine}

namespace Tallied

theorem note {e : Event} (h : m.Tallied past due last) (hn : e.notice? = none)
    (hp : e.panicked? = none) : (m.emit e).Tallied past due last :=
  StreamMemory.Tallied.note h hn hp

/-- What is told from here on is compared with the notices so far. -/
theorem rebase (h : m.Tallied past due last) : m.Tallied (notices m.trace) due [] :=
  ⟨⟨[], .nil, by simp⟩, h.balance⟩

theorem synchronize (h : m.Tallied past due []) (s : StreamId) :
    Drained past due .synchronize s (m.synchronize s) :=
  h.drain .synchronize s

/-- Where nobody can be told, the log says so. -/
theorem synchronizeNoThrow (h : m.Tallied past due []) (s : StreamId) :
    (m.synchronizeNoThrow s).Tallied past due [] := by
  have hd := h.synchronize s
  unfold Machine.synchronizeNoThrow Synchronizer.synchronizeNoThrow views
  dsimp only
  generalize m.synchronize s = done at hd
  cases hd with
  | ok h => exact h
  | @noted m n hn hd h =>
    refine StreamMemory.Tallied.told (n := .passedOver s (.stream ⟨s, n⟩)) h rfl rfl ?_
      (fun _ => rfl) (fun _ => rfl)
    exact fun ns hns => hns.passedOver (f := ⟨s, n⟩) hn
  | owed hn hd h => cases hd

theorem giveBack (h : m.Tallied past due last) (r : ResourceId) (b : BlockId)
    (bytes alignment : Nat) : (m.giveBack r b bytes alignment).Tallied past due last := by
  rcases m.giveBack_eq r b bytes alignment with ⟨-, e⟩ | ⟨x, -, e⟩
  · rw [e]
    exact h.note rfl rfl
  · rw [e]
    exact h.note (e := .returned b (Heap.layout bytes alignment)) rfl rfl

theorem takeBlock (h : m.Tallied past due last) {r : ResourceId} {heap heap' : Heap}
    {bytes alignment : Nat} {b : BlockId}
    (hb : m.takeBlock r heap bytes alignment = .ok (b, heap', m')) : m'.Tallied past due last := by
  obtain ⟨-, -, rfl⟩ := takeBlock_eq_ok hb
  exact h.note (e := .obtained ⟨b, r, bytes, alignment⟩) rfl rfl

theorem cacheBlock (h : m.Tallied past due last) (r : ResourceId) (e : Emulated) (b : BlockId)
    (k : BlockKey) : (m.cacheBlock r e b k).Tallied past due last :=
  Tallied.note (m := (m.setEmulated r (e.cache k b)).emit (.cached r k b))
    (Tallied.note (m := m.setEmulated r (e.cache k b)) h rfl rfl) rfl rfl

theorem deallocateAsync (h : m.Tallied past due last) (r : ResourceId) (b : BlockId)
    (k : BlockKey) : (m.deallocateAsync r b k).Tallied past due last := by
  unfold Machine.deallocateAsync
  split
  · exact h.cacheBlock r _ b k
  · exact h

theorem releaseKey (h : m.Tallied past due []) (r : ResourceId) (k : BlockKey)
    (bs : List BlockId) : (m.releaseKey r k bs).Tallied past due [] := by
  have hs := h.synchronizeNoThrow k.stream
  unfold Machine.releaseKey
  generalize m.synchronizeNoThrow k.stream = n at hs
  induction bs generalizing n with
  | nil => exact hs
  | cons b bs ih => exact ih _ (hs.giveBack r b k.bytes k.alignment)

theorem releaseLists (h : m.Tallied past due []) (r : ResourceId)
    (lists : KeyedList BlockKey (List BlockId)) : (m.releaseLists r lists).Tallied past due [] := by
  induction lists generalizing m with
  | nil => exact h
  | cons entry lists ih => exact ih (h.releaseKey r entry.1 entry.2)

theorem releaseCached (h : m.Tallied past due []) (r : ResourceId) :
    (m.releaseCached r).2.Tallied past due [] := by
  unfold Machine.releaseCached
  split
  · exact h
  · rename_i e he
    have hb : (m.setEmulated r e.beginPass).Tallied past due [] := h
    exact (hb.releaseLists r _).note rfl rfl

theorem drop (h : m.Tallied past due []) (r : ResourceId) : (m.drop r).Tallied past due [] := by
  unfold Machine.drop
  split
  · exact h
  · have hd : Machine.Tallied past due [] { m with resources := m.resources.set r none } := h
    dsimp only
    split
    · exact hd
    · refine note (releaseLists ?_ r _) rfl rfl
      split
      · exact hd
      · exact hd.note rfl rfl

end Tallied

end Machine

/-! ## Requests for blocks -/

/-- The failed drain that a failure tells of. -/
def Failure.drain? : Failure → Option StreamFailure
  | stream f | invalidState (stream f) => some f
  | _ => none

namespace Machine

variable {past last : List Notice} {due : StreamId → Nat} {m m' : Machine} {r : ResourceId}

theorem drain?_takeBlock {heap : Heap} {bytes alignment : Nat} {f : Failure}
    (h : m.takeBlock r heap bytes alignment = .error f) : f.drain? = none := by
  unfold takeBlock Heap.allocate at h
  split at h
  · rename_i hall
    cases h
    split at hall
    · cases hall
      rfl
    · split at hall
      · cases hall
        rfl
      · cases hall
  · cases h

/-- A request was answered, and the answer tells of no drain. -/
structure Answered (past : List Notice) (due : StreamId → Nat)
    (o : Except Failure BlockId × Machine) : Prop where
  tallied : o.2.Tallied past due []
  silent : ∀ f, o.1 = .error f → f.drain? = none

/-- What becomes of a request that synchronizes the default stream. -/
inductive Allocated (past : List Notice) (due : StreamId → Nat) :
    Except Failure BlockId × Machine → Prop
  | answered {o : Except Failure BlockId × Machine} (h : Answered past due o) : Allocated past due o
  | noted {m : Machine} {n : Nat} (hn : 0 < n)
    (h : m.Tallied past due [.noted ⟨defaultStream, n⟩]) :
    Allocated past due (.error (.invalidState (.stream ⟨defaultStream, n⟩)), m)

namespace Answered

theorem ok (h : m.Tallied past due []) (b : BlockId) : Answered past due (.ok b, m) :=
  ⟨h, fun _ hf => by cases hf⟩

theorem error (h : m.Tallied past due []) {f : Failure} (hf : f.drain? = none) :
    Answered past due (.error f, m) :=
  ⟨h, fun g hg => by
    obtain rfl : f = g := Except.error.inj hg
    exact hf⟩

theorem drain?_map {o : Except Failure BlockId × Machine} (h : Answered past due o) {f : Failure}
    (hf : (o.1.map fun _ => ()) = .error f) : f.drain? = none := by
  apply h.silent
  cases ho : o.1 with
  | ok b =>
    rw [ho] at hf
    cases hf
  | error g =>
    rw [ho] at hf
    cases hf
    rfl

theorem lend {o : Except Failure BlockId × Machine} (h : Answered past due o)
    (bytes alignment : Nat) : (Machine.lend r bytes alignment o).Tallied past due [] := by
  rcases o with ⟨f | b, m⟩
  · exact h.tallied
  · exact h.tallied.note rfl rfl

end Answered

namespace Tallied

theorem allocateFromHeap (h : m.Tallied past due []) (r : ResourceId) (bytes alignment : Nat) :
    Answered past due (m.allocateFromHeap r bytes alignment) := by
  unfold Machine.allocateFromHeap
  split
  · exact .error h rfl
  · rename_i x _
    split
    · rename_i hb
      exact .error h (drain?_takeBlock hb)
    · rename_i b heap m' hb
      have ht : m'.Tallied past due [] := h.takeBlock hb
      have hset : (m'.setResource r (x.setHeap heap)).Tallied past due [] := ht
      exact .ok hset b

theorem takeReserved (h : m.Tallied past due []) (r : ResourceId) (e : Emulated) (k : BlockKey) :
    Answered past due (m.takeReserved r e k) := by
  unfold Machine.takeReserved
  split
  · rename_i hb
    have ht : (m.setEmulated r (e.unreserve k.bytes)).Tallied past due [] := h
    exact .error ht (drain?_takeBlock hb)
  · rename_i b heap m' hb
    have ht : m'.Tallied past due [] := h.takeBlock hb
    have hset : (m'.setEmulated r (e.allocated heap)).Tallied past due [] := ht
    exact .ok (hset.note rfl rfl) b

theorem allocateAsync (h : m.Tallied past due []) (r : ResourceId) (k : BlockKey) :
    Answered past due (m.allocateAsync r k) := by
  unfold Machine.allocateAsync
  split
  · exact .error h rfl
  · rename_i e _
    split
    · split
      · rename_i b e' _
        have hu : (m.setEmulated r e').Tallied past due [] := h
        exact .ok (hu.note rfl rfl) b
      · split
        · exact h.takeReserved r _ k
        · split
          · unfold Machine.reclaimFor
            dsimp only
            have hp := (h.note (e := .logged (.exhausted e.kind k.bytes)) rfl rfl).releaseCached r
            split
            · exact hp.takeReserved r _ k
            · exact .error hp rfl
          · exact .error h rfl
    · exact .error h rfl

theorem deallocateRecorded (h : m.Tallied past due []) (r : ResourceId) (b : BlockId)
    (bytes alignment : Nat) (s : StreamId) :
    ((recordedBackend r).deallocateAsync m b bytes alignment s).Tallied past due [] :=
  (h.note (e := .hook (.deallocate s)) rfl rfl).giveBack r b bytes alignment

end Tallied

end Machine

/-! ## Synchronous requests -/

namespace Backend

variable {σ ι α : Type}

/-- What holds after a request: `P` if it was served, and `N f` if it failed with `f`. -/
def Ends (P : σ → Prop) (N : Failure → σ → Prop) : Except Failure α × σ → Prop
  | (.ok _, s) => P s
  | (.error f, s) => N f s

/-- An allocation fails for a reason of its hook, or it is invalid for a reason of its streams. -/
theorem allocate_ends {k : Backend σ ι} {P : σ → Prop} {E N : Failure → σ → Prop}
    (bytes alignment : Nat) (synchronize : ∀ s, P s → Ends P N (k.synchronize s k.defaultStream))
    (serve : ∀ s, P s → Ends P E (k.allocateAsync s bytes alignment k.defaultStream))
    (give : ∀ f b s, N f s → N f (k.deallocateAsync s b bytes alignment k.defaultStream))
    {s : σ} (h : P s) :
    Ends P (fun f s => E f s ∨ ∃ g, f = .invalidState g ∧ N g s) (k.allocate s bytes alignment) := by
  have hfirst := synchronize s h
  rcases h₁ : k.synchronize s k.defaultStream with ⟨f | _, s₁⟩
  · rw [h₁] at hfirst
    rw [allocate_of_synchronize_error h₁]
    exact .inr ⟨f, rfl, hfirst⟩
  rw [h₁] at hfirst
  have hserved := serve s₁ hfirst
  rcases h₂ : k.allocateAsync s₁ bytes alignment k.defaultStream with ⟨f | b, s₂⟩
  · rw [h₂] at hserved
    rw [allocate_of_allocateAsync_error h₁ h₂]
    exact .inl hserved
  rw [h₂] at hserved
  have hsecond := synchronize s₂ hserved
  rcases h₃ : k.synchronize s₂ k.defaultStream with ⟨f | _, s₃⟩
  · rw [h₃] at hsecond
    rw [allocate_of_second_synchronize_error h₁ h₂ h₃]
    exact .inr ⟨f, rfl, give f b s₃ hsecond⟩
  · rw [h₃] at hsecond
    rw [allocate_of_ok h₁ h₂ h₃]
    exact hsecond

end Backend

namespace Machine

variable {past last : List Notice} {due : StreamId → Nat} {m m' : Machine} {r : ResourceId}

theorem Answered.ends {o : Except Failure BlockId × Machine} (h : Answered past due o) :
    Backend.Ends (fun m => m.Tallied past due [])
      (fun f m => m.Tallied past due [] ∧ f.drain? = none) o := by
  rcases o with ⟨f | b, m⟩
  · exact ⟨h.tallied, h.silent f rfl⟩
  · exact h.tallied

namespace Tallied

/-- The two synchronizations of a request are the only ones whose failure is told to its caller. -/
theorem allocateEmulated (h : m.Tallied past due []) (r : ResourceId) (bytes alignment : Nat) :
    Allocated past due ((emulatedBackend r).allocate m bytes alignment) := by
  let noted (f : Failure) (m : Machine) : Prop :=
    ∃ n, 0 < n ∧ f = .stream ⟨defaultStream, n⟩ ∧ m.Tallied past due [.noted ⟨defaultStream, n⟩]
  have hends := Backend.allocate_ends (k := emulatedBackend r) (N := noted) bytes alignment
    ?_ (fun m hm => (hm.allocateAsync r ⟨defaultStream, bytes, alignment⟩).ends) ?_ h
  · rcases hall : (emulatedBackend r).allocate m bytes alignment with ⟨f | b, m'⟩
    · rw [hall] at hends
      rcases hends with ⟨hm, hf⟩ | ⟨g, rfl, n, hn, rfl, hm⟩
      · exact .answered (.error hm hf)
      · exact .noted hn hm
    · rw [hall] at hends
      exact .answered (.ok hends b)
  · intro m hm
    have hd := hm.synchronize defaultStream
    change Backend.Ends _ _
      ((m.synchronize defaultStream).1.mapError .stream, (m.synchronize defaultStream).2)
    generalize m.synchronize defaultStream = done at hd
    cases hd with
    | ok h => exact h
    | noted hn _ h => exact ⟨_, hn, rfl, h⟩
    | owed _ hd _ => cases hd
  · rintro f b m ⟨n, hn, rfl, hm⟩
    exact ⟨n, hn, rfl, hm.deallocateAsync r b ⟨defaultStream, bytes, alignment⟩⟩

theorem synchronizeRecorded (h : m.Tallied past due []) (s : StreamId) :
    Backend.Ends (fun m => m.Tallied past due [])
      (fun f m => m.Tallied past due [] ∧ Failure.drain? (.invalidState f) = none)
      (m.synchronizeRecorded s) := by
  have hn := h.note (e := .hook (.synchronize s)) rfl rfl
  unfold Machine.synchronizeRecorded
  dsimp only
  split
  · exact hn
  · exact ⟨hn, rfl⟩
  · exact hn

theorem synchronizeRecordedNoThrow (h : m.Tallied past due []) (s : StreamId) :
    (recordedStreams.synchronizeNoThrow m s).Tallied past due [] := by
  have hr := h.synchronizeRecorded s
  unfold Synchronizer.synchronizeNoThrow
  change Backend.Ends _ _ (recordedStreams.synchronize m s) at hr
  split
  · rename_i hs
    rw [hs] at hr
    exact hr
  · rename_i f m' hs
    rw [hs] at hr
    exact hr.1.note (e := .logged (.synchronizeFailed (.recorded s) f)) rfl rfl

theorem allocateRecorded (h : m.Tallied past due []) (r : ResourceId) (bytes alignment : Nat) :
    Answered past due ((recordedBackend r).allocate m bytes alignment) := by
  have hends := Backend.allocate_ends (k := recordedBackend r) bytes alignment
    (fun m hm => hm.synchronizeRecorded defaultStream)
    (fun m hm => ((hm.note (e := .hook (.allocate defaultStream)) rfl rfl).allocateFromHeap r bytes
      alignment).ends)
    (fun f b m hm => ⟨hm.1.deallocateRecorded r b bytes alignment defaultStream, hm.2⟩) h
  rcases hall : (recordedBackend r).allocate m bytes alignment with ⟨f | b, m'⟩
  · rw [hall] at hends
    rcases hends with ⟨hm, hf⟩ | ⟨g, rfl, hm, hf⟩
    · exact .error hm hf
    · exact .error hm hf
  · rw [hall] at hends
    exact .ok hends b

theorem allocate (h : m.Tallied past due []) (r : ResourceId) (bytes alignment : Nat) :
    Allocated past due (m.allocate r bytes alignment) := by
  unfold Machine.allocate
  split
  · rename_i backend hb
    rcases backend?_eq_some hb with ⟨e, -, rfl⟩ | ⟨heap, -, rfl⟩
    · exact h.allocateEmulated r bytes alignment
    · exact .answered (h.allocateRecorded r bytes alignment)
  · exact .answered (h.allocateFromHeap r bytes alignment)

end Tallied

end Machine

/-! ## Calls -/

namespace Machine

/-- What the caller is answered. -/
def answer (m : Machine) : Call → Except Failure Unit
  | .synchronize s => (m.synchronize s).1.mapError .stream
  | .destroy s => (m.destroy s).1.mapError .stream
  | .allocateAsync r k =>
    match m.backend? r with
    | some backend => (backend.allocateAsync m k.bytes k.alignment k.stream).1.map fun _ => ()
    | none => .ok ()
  | .allocate r bytes alignment => (m.allocate r bytes alignment).1.map fun _ => ()
  | _ => .ok ()

/-- The failed drain that an answer tells of. -/
def told? (m : Machine) (c : Call) : Option StreamFailure :=
  match m.answer c with
  | .ok _ => none
  | .error f => f.drain?

/-- The failed operations of a stream that the caller is told of. -/
def toldBy (s : StreamId) (m : Machine) (c : Call) : Nat := (m.told? c).elim 0 (StreamFailure.on s)

/-- The failed operations of a stream that the caller who destroys it is told of. -/
def destroyedBy (s : StreamId) (m : Machine) : Call → Nat
  | .destroy t => if t = defaultStream then 0 else m.toldBy s (.destroy t)
  | _ => 0

end Machine

/-- What a call is answered, with the last notices that it leaves. A caller is told of a failed drain
if the call is to drain a stream, or needs a drain to allocate a block. -/
inductive Concluded : Call → Except Failure Unit → List Notice → Prop
  | silent {c : Call} {answer : Except Failure Unit} (h : ∀ f, answer = .error f → f.drain? = none) :
    Concluded c answer []
  | synchronized {s : StreamId} {n : Nat} (hn : 0 < n) :
    Concluded (.synchronize s) (.error (.stream ⟨s, n⟩)) [.noted ⟨s, n⟩]
  | drained {n : Nat} (hn : 0 < n) :
    Concluded (.destroy defaultStream) (.error (.stream ⟨defaultStream, n⟩))
      [.noted ⟨defaultStream, n⟩]
  | destroyed {s : StreamId} (hs : s ≠ defaultStream) {n : Nat} (hn : 0 < n) :
    Concluded (.destroy s) (.error (.stream ⟨s, n⟩)) []
  | unallocated {r : ResourceId} {bytes alignment n : Nat} (hn : 0 < n) :
    Concluded (.allocate r bytes alignment)
      (.error (.invalidState (.stream ⟨defaultStream, n⟩))) [.noted ⟨defaultStream, n⟩]

namespace Machine

/-- The notices that a call adds are settled, but for one that its answer settles. -/
def Explained (m : Machine) (c : Call) : Prop :=
  ∃ ns last, Settled ns ∧ notices (m.call c).trace = notices m.trace ++ ns ++ last ∧
    Concluded c (m.answer c) last

variable {past last : List Notice} {due : StreamId → Nat} {m : Machine} {c : Call}

/-- A call, of which at most the last notice is left for its answer to settle. -/
structure Served (past : List Notice) (due : StreamId → Nat) (m : Machine) (c : Call)
    (last : List Notice) : Prop where
  tallied : (m.call c).Tallied past (fun s => due s + m.destroyedBy s c) last
  concluded : Concluded c (m.answer c) last

theorem told?_of_ok {answer : Unit} (h : m.answer c = .ok answer) : m.told? c = none := by
  unfold told?
  rw [h]

theorem told?_of_error {f : Failure} (h : m.answer c = .error f) : m.told? c = f.drain? := by
  unfold told?
  rw [h]

theorem destroyedBy_default {s : StreamId} : m.destroyedBy s (.destroy defaultStream) = 0 := by
  unfold destroyedBy
  exact if_pos rfl

theorem destroyedBy_destroy {s : StreamId} (hs : s ≠ defaultStream) (t : StreamId) :
    m.destroyedBy t (.destroy s) = m.toldBy t (.destroy s) := if_neg hs

theorem toldBy_of_none (h : m.told? c = none) (s : StreamId) : m.toldBy s c = 0 := by
  unfold toldBy
  rw [h]
  rfl

theorem toldBy_of_some {f : StreamFailure} (h : m.told? c = some f) (s : StreamId) :
    m.toldBy s c = f.on s := by
  unfold toldBy
  rw [h]
  rfl

theorem destroyedBy_of_none (h : m.told? c = none) (s : StreamId) : m.destroyedBy s c = 0 := by
  unfold destroyedBy
  split
  · split
    · rfl
    · exact toldBy_of_none h s
  · rfl

namespace Served

theorem of_eq_zero (h : (m.call c).Tallied past due last) (hzero : ∀ s, m.destroyedBy s c = 0)
    (hc : Concluded c (m.answer c) last) : Served past due m c last := by
  refine ⟨?_, hc⟩
  simp only [hzero, Nat.add_zero]
  exact h

theorem silent (h : (m.call c).Tallied past due [])
    (hf : ∀ f, m.answer c = .error f → f.drain? = none) : Served past due m c [] := by
  apply of_eq_zero h ?_ (.silent hf)
  apply destroyedBy_of_none
  cases ha : m.answer c with
  | ok _ => exact told?_of_ok ha
  | error f => exact (told?_of_error ha).trans (hf f ha)

end Served

namespace Tallied

theorem build (h : m.Tallied past due []) (blueprint : Blueprint) :
    (m.build blueprint).Tallied past due [] := by
  cases blueprint with
  | emulated kind config => exact h.note (e := .logged (.resourceCreated kind config)) rfl rfl
  | _ => exact h

theorem callSynchronize (h : m.Tallied past due []) (s : StreamId) :
    ∃ last, Served past due m (.synchronize s) last := by
  have hd := h.synchronize s
  have hanswer : m.answer (.synchronize s) = (m.synchronize s).1.mapError .stream := rfl
  have hcall : m.call (.synchronize s) = (m.synchronize s).2 := rfl
  generalize m.synchronize s = done at hd hanswer hcall
  cases hd with
  | ok ht =>
    refine ⟨[], .silent (hcall ▸ ht) fun f hf => ?_⟩
    rw [hanswer] at hf
    cases hf
  | noted hn _ ht =>
    refine ⟨_, .of_eq_zero (by rw [hcall]; exact ht) (fun _ => rfl) ?_⟩
    rw [hanswer]
    exact .synchronized hn
  | owed hn hd _ => cases hd

theorem callDestroy (h : m.Tallied past due []) (s : StreamId) :
    ∃ last, Served past due m (.destroy s) last := by
  have hd := h.drain .destroy s
  have hanswer : m.answer (.destroy s) = (m.drain .destroy s).1.mapError .stream := rfl
  have hcall : m.call (.destroy s) = (m.drain .destroy s).2 := rfl
  generalize m.drain .destroy s = done at hd hanswer hcall
  cases hd with
  | ok ht =>
    refine ⟨[], .silent (hcall ▸ ht) fun f hf => ?_⟩
    rw [hanswer] at hf
    cases hf
  | noted hn hd ht =>
    obtain rfl : s = defaultStream := by simpa [DrainRequest.detaches] using hd
    refine ⟨_, .of_eq_zero (by rw [hcall]; exact ht) (fun _ => destroyedBy_default) ?_⟩
    rw [hanswer]
    exact .drained hn
  | owed hn hd ht =>
    obtain ⟨-, hs⟩ := DrainRequest.eq_of_detaches hd
    have htold : m.told? (.destroy s) = some ⟨s, _⟩ := told?_of_error hanswer
    refine ⟨[], ?_, ?_⟩
    · simp only [destroyedBy_destroy hs, toldBy_of_some htold]
      exact hcall ▸ ht
    · rw [hanswer]
      exact .destroyed hs hn

theorem callAllocateAsync (h : m.Tallied past due []) (r : ResourceId) (k : BlockKey) :
    Served past due m (.allocateAsync r k) [] := by
  cases hb : m.backend? r with
  | none =>
    apply Served.silent
    · simp only [Machine.call, hb]
      exact h
    · intro f hf
      simp only [answer, hb] at hf
      cases hf
  | some backend =>
    have hserved : Answered past due (backend.allocateAsync m k.bytes k.alignment k.stream) := by
      rcases backend?_eq_some hb with ⟨e, -, rfl⟩ | ⟨heap, -, rfl⟩
      · exact h.allocateAsync r k
      · exact (h.note (e := .hook (.allocate k.stream)) rfl rfl).allocateFromHeap r _ _
    apply Served.silent
    · simp only [Machine.call, hb]
      exact hserved.lend _ _
    · intro f hf
      simp only [answer, hb] at hf
      exact hserved.drain?_map hf

theorem callAllocate (h : m.Tallied past due []) (r : ResourceId) (bytes alignment : Nat) :
    ∃ last, Served past due m (.allocate r bytes alignment) last := by
  have hall := h.allocate r bytes alignment
  have hanswer : m.answer (.allocate r bytes alignment) =
      (m.allocate r bytes alignment).1.map fun _ => () := rfl
  have hcall : m.call (.allocate r bytes alignment) =
      lend r bytes alignment (m.allocate r bytes alignment) := rfl
  generalize m.allocate r bytes alignment = o at hall hanswer hcall
  cases hall with
  | answered ho =>
    refine ⟨[], .silent ?_ fun f hf => ?_⟩
    · rw [hcall]
      exact ho.lend bytes alignment
    · rw [hanswer] at hf
      exact ho.drain?_map hf
  | noted hn ht =>
    refine ⟨_, .of_eq_zero (by rw [hcall]; exact ht) (fun _ => rfl) ?_⟩
    rw [hanswer]
    exact .unallocated hn

theorem callReleaseAsync (h : m.Tallied past due []) (r : ResourceId) (x : Loan) (s : StreamId) :
    (m.call (.releaseAsync r x s)).Tallied past due [] := by
  have hreleased := h.note (e := .released x) rfl rfl
  unfold Machine.call
  dsimp only
  split
  · rename_i backend hb
    rcases backend?_eq_some hb with ⟨e, -, rfl⟩ | ⟨heap, -, rfl⟩
    · exact hreleased.deallocateAsync r x.block ⟨s, x.bytes, x.alignment⟩
    · exact hreleased.deallocateRecorded r x.block x.bytes x.alignment s
  · exact h

theorem callRelease (h : m.Tallied past due []) (r : ResourceId) (x : Loan) :
    (m.call (.release r x)).Tallied past due [] := by
  have hreleased := h.note (e := .released x) rfl rfl
  unfold Machine.call
  dsimp only
  split
  · unfold Machine.deallocate
    split
    · rename_i backend hb
      rcases backend?_eq_some hb with ⟨e, -, rfl⟩ | ⟨heap, -, rfl⟩
      · exact (hreleased.synchronizeNoThrow defaultStream).deallocateAsync r x.block
          ⟨defaultStream, x.bytes, x.alignment⟩
      · exact (hreleased.synchronizeRecordedNoThrow defaultStream).deallocateRecorded r x.block
          x.bytes x.alignment defaultStream
    · exact hreleased.giveBack r x.block x.bytes x.alignment
  · exact h

theorem call (h : m.Tallied past due []) (c : Call) : ∃ last, Served past due m c last := by
  have quiet : (m.call c).Tallied past due [] → m.answer c = .ok () →
      ∃ last, Served past due m c last := by
    intro ht ha
    refine ⟨[], .silent ht fun f hf => ?_⟩
    rw [ha] at hf
    cases hf
  cases c with
  | synchronize s => exact h.callSynchronize s
  | destroy s => exact h.callDestroy s
  | allocateAsync r k => exact ⟨[], h.callAllocateAsync r k⟩
  | allocate r bytes alignment => exact h.callAllocate r bytes alignment
  | build blueprint => exact quiet (h.build blueprint) rfl
  | createStream => exact quiet (h.note (e := .logged (.streamCreated m.streamCount)) rfl rfl) rfl
  | enqueue s op => exact quiet (h.note (e := .enqueued s op) rfl rfl) rfl
  | synchronizeNoThrow s => exact quiet (h.synchronizeNoThrow s) rfl
  | releaseAsync r x s => exact quiet (h.callReleaseAsync r x s) rfl
  | release r x => exact quiet (h.callRelease r x) rfl
  | releaseCached r => exact quiet (h.releaseCached r) rfl
  | drop r => exact quiet (h.drop r) rfl
  | synchronizeRecorded s => exact quiet (h.synchronizeRecordedNoThrow s) rfl
  | _ => exact quiet h rfl

end Tallied

/-! ## Runs -/

/-- Adds up what the calls of a run count. -/
def tally (count : Machine → Call → Nat) (m : Machine) : List Call → Nat
  | [] => 0
  | c :: cs => count m c + (m.call c).tally count cs

end Machine

/-- A caller who is told of a drain is told what it noted, or what it did not note because it
destroyed its stream. -/
theorem Concluded.total_told {m : Machine} {c : Call} {last : List Notice}
    (h : Concluded c (m.answer c) last) (s : StreamId) :
    total (Notice.notedOn s) last + total (Notice.destroyedOn s) last + m.destroyedBy s c =
      total (Notice.toldOn s) last + m.toldBy s c := by
  generalize ha : m.answer c = answer at h
  cases h with
  | silent hf =>
    have htold : m.told? c = none := by
      cases answer with
      | ok _ => exact Machine.told?_of_ok ha
      | error f => exact (Machine.told?_of_error ha).trans (hf f rfl)
    rw [Machine.destroyedBy_of_none htold, Machine.toldBy_of_none htold]
    rfl
  | synchronized hn =>
    rw [Machine.toldBy_of_some (Machine.told?_of_error ha)]
    exact Nat.add_comm _ _
  | drained hn =>
    rw [Machine.toldBy_of_some (Machine.told?_of_error ha), Machine.destroyedBy_default]
    exact Nat.add_comm _ _
  | destroyed hs hn =>
    rw [Machine.destroyedBy_destroy hs]
    rfl
  | unallocated hn =>
    rw [Machine.toldBy_of_some (Machine.told?_of_error ha)]
    exact Nat.add_comm _ _

namespace Machine

variable {due : StreamId → Nat} {m : Machine} {c : Call}

theorem Served.explained {last : List Notice} (h : Served (notices m.trace) due m c last) :
    m.Explained c := by
  obtain ⟨ns, hns, hnotices⟩ := h.tallied.settled
  exact ⟨ns, last, hns, hnotices, h.concluded⟩

theorem Explained.total_told (h : m.Explained c) (s : StreamId) :
    total (Notice.notedOn s) (notices (m.call c).trace) +
        total (Notice.destroyedOn s) (notices (m.call c).trace) + m.destroyedBy s c +
        total (Notice.toldOn s) (notices m.trace) =
      total (Notice.notedOn s) (notices m.trace) + total (Notice.destroyedOn s) (notices m.trace) +
        (total (Notice.toldOn s) (notices (m.call c).trace) + m.toldBy s c) := by
  obtain ⟨ns, last, hns, hnotices, hc⟩ := h
  have hsettled := hns.total_told s
  have hlast := hc.total_told s
  rw [hnotices]
  simp only [total_append]
  omega

theorem obeys_explained (h : m.Tallied (notices m.trace) due []) (cs : List Call) :
    m.Obeys Explained cs := by
  induction cs generalizing m due with
  | nil => trivial
  | cons c cs ih =>
    -- the next call is compared with the notices of this one, whatever they settle
    obtain ⟨last, hserved⟩ := h.call c
    exact ⟨hserved.explained, ih hserved.tallied.rebase⟩

theorem tallied_run (h : m.Tallied (notices m.trace) due []) (cs : List Call) :
    (m.run cs).Tallied (notices (m.run cs).trace) (fun s => due s + m.tally (destroyedBy s) cs)
      [] := by
  induction cs generalizing m due with
  | nil => exact h
  | cons c cs ih =>
    obtain ⟨last, hserved⟩ := h.call c
    have hrun := ih hserved.tallied.rebase
    simp only [Nat.add_assoc] at hrun
    exact hrun

theorem Obeys.total_told {cs : List Call} (h : m.Obeys Explained cs) (s : StreamId) :
    total (Notice.notedOn s) (notices (m.run cs).trace) +
        total (Notice.destroyedOn s) (notices (m.run cs).trace) + m.tally (destroyedBy s) cs +
        total (Notice.toldOn s) (notices m.trace) =
      total (Notice.notedOn s) (notices m.trace) + total (Notice.destroyedOn s) (notices m.trace) +
        (total (Notice.toldOn s) (notices (m.run cs).trace) + m.tally (toldBy s) cs) := by
  induction cs generalizing m with
  | nil => rfl
  | cons c cs ih =>
    have hstep := h.1.total_told s
    have hrest := ih h.2
    rw [run_cons]
    simp only [tally]
    omega

theorem tallied_start (env : Environment) :
    (start env).Tallied (notices (start env).trace) (fun _ => 0) [] :=
  ⟨⟨[], .nil, rfl⟩, fun _ => rfl⟩

/-- Each operation that panics is told of once: by a note in the log, or by the answer to whoever
destroys its stream. Each note is settled once, by an answer or by a line that takes its place. -/
theorem failures_told_once (env : Environment) (cs : List Call) (s : StreamId) :
    panics s ((start env).run cs).trace =
        total (Notice.notedOn s) (notices ((start env).run cs).trace) +
          total (Notice.destroyedOn s) (notices ((start env).run cs).trace) +
          (start env).tally (destroyedBy s) cs ∧
      panics s ((start env).run cs).trace =
        total (Notice.toldOn s) (notices ((start env).run cs).trace) +
          (start env).tally (toldBy s) cs ∧
      (start env).Obeys Explained cs := by
  have hbalance := (tallied_run (tallied_start env) cs).balance s
  have hexplained := obeys_explained (tallied_start env) cs
  have htold := hexplained.total_told s
  have hstart : notices (start env).trace = [] := rfl
  rw [hstart] at htold
  simp only [total_nil, Nat.add_zero, Nat.zero_add] at hbalance htold
  exact ⟨hbalance, hbalance.trans htold, hexplained⟩

end Machine

end StreamMemory
