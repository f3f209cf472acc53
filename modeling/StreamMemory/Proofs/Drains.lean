import StreamMemory.Proofs.Lookups

/-!
# What drains keep

A drain runs operations, and an operation does no more to a machine than its acts do. A property
that no act breaks is kept by every drain, and by every release pass if no block given back breaks
it either.
-/

set_option autoImplicit false

namespace StreamMemory

/-- Whether a log entry records what was done with streams and blocks. The other entries tell of
failures, of want of room, and of resources that come and go. -/
def LogEntry.deed : LogEntry → Bool
  | streamCreated _ | allocated .. | reused .. | freed .. | released .. => true
  | _ => false

namespace Event

/-- Whether an event neither moves a block nor is the log entry of a deed. -/
def idle : Event → Bool
  | logged entry => !entry.deed
  | e => !e.moves

theorem moves_of_idle {e : Event} (h : e.idle = true) : e.moves = false := by
  cases e <;> first | rfl | cases h

end Event

/-- A property that no act of an operation can break. -/
structure DrainStable (P : Machine → Prop) : Prop where
  streams : ∀ {m : Machine} r, P m → P { m with streams := r }
  emit : ∀ {m : Machine} {e : Event}, e.idle = true → P m → P (m.emit e)
  contents : ∀ {m : Machine} b f, P m → P { m with memory := m.memory.modify b f }
  free : ∀ {m : Machine} s r b k, P m → P (m.freeBlock s r b k)

namespace DrainStable

variable {P : Machine → Prop} (c : DrainStable P)
include c

theorem openDrain {m m' : Machine} {request : DrainRequest} {s : StreamId} {f : Frame}
    (ho : m.openDrain request s = some (f, m')) (h : P m) : P m' := by
  obtain ⟨q, -, -, rfl⟩ := Machine.openDrain_eq_some ho
  exact c.streams _ h

theorem closeDrain {m : Machine} (f : Frame) (h : P m) : P (m.closeDrain f) := by
  unfold Machine.closeDrain
  split
  · exact c.streams _ h
  · have hpruned := c.streams ((m.streams.prune f.stream f.queue).release f.queue) h
    dsimp only
    split
    · exact hpruned
    · exact c.emit rfl hpruned

theorem nest {run : Run} (request : DrainRequest) (s : StreamId) (h : P run.machine) :
    P (run.nest request s).machine := by
  unfold Run.nest
  dsimp only
  split
  · exact c.emit rfl h
  · have ha : P (run.machine.report run.frame.stream request.announcement) := c.emit rfl h
    split
    · rename_i f m ho
      exact c.openDrain ho ha
    · exact c.emit rfl ha

theorem perform {run : Run} (a : Act) (h : P run.machine) : P (run.perform a).machine := by
  cases a with
  | write b byte length offset => exact c.emit rfl (c.contents b _ h)
  | enqueue s acts => exact c.emit rfl (c.emit rfl (c.streams _ h))
  | synchronize s => exact c.nest .synchronize s h
  | destroy s => exact c.nest .destroy s h
  | free r b k => exact c.free _ r b k h
  | _ => exact c.emit rfl h

theorem step {run next : Run} (h : P run.machine) (hs : run.step = .inr next) :
    P next.machine := by
  rcases Run.step_eq_inr hs with ⟨a, rest, -, rfl⟩ | ⟨op, streams, -, rfl⟩ | ⟨f, outer, -, -, rfl⟩
  · exact c.perform a h
  · exact c.emit rfl (c.streams _ h)
  · exact c.emit rfl (c.closeDrain run.frame h)

theorem drain {m : Machine} (request : DrainRequest) (s : StreamId) (h : P m) :
    P (m.drain request s).2 := by
  apply Machine.drain_induction (P := fun run => P run.machine)
  · exact fun _ => h
  · exact fun _ _ ho => c.openDrain ho h
  · exact fun _ _ hr hs => c.step hr hs
  · intro run done hr hs
    obtain ⟨-, -, rfl⟩ := Run.step_eq_inl hs
    exact c.closeDrain run.frame hr

theorem synchronizeNoThrow {m : Machine} (s : StreamId) (h : P m) : P (m.synchronizeNoThrow s) := by
  have hd : P (m.synchronize s).2 := c.drain .synchronize s h
  rcases m.synchronizeNoThrow_eq s with e | ⟨f, e⟩
  · rw [e]
    exact hd
  · rw [e]
    exact c.emit rfl hd

/-- A property that no block given back can break either is kept by a release pass. -/
theorem releaseLists {r : ResourceId}
    (giveBack : ∀ {m : Machine} b bytes alignment, P m → P (m.giveBack r b bytes alignment))
    {m : Machine} (lists : KeyedList BlockKey (List BlockId)) (h : P m) :
    P (m.releaseLists r lists) := by
  induction lists generalizing m with
  | nil => exact h
  | cons entry lists ih =>
    have hkey : P (m.releaseKey r entry.1 entry.2) :=
      Machine.releaseKey_induction (fun _ b hn => giveBack b _ _ hn) entry.2
        (c.synchronizeNoThrow entry.1.stream h)
    exact ih hkey

section Passes
variable {r : ResourceId}
variable (giveBack : ∀ {m : Machine} b bytes alignment, P m → P (m.giveBack r b bytes alignment))
variable (endPass : ∀ {m : Machine} kind bytes, P m → P (m.log (.released kind bytes)))
include giveBack endPass

theorem releaseCached {m : Machine}
    (beginPass : ∀ e, m.emulated? r = some e → P (m.setEmulated r e.beginPass)) (h : P m) :
    P (m.releaseCached r).2 := by
  unfold Machine.releaseCached
  split
  · exact h
  · rename_i e he
    exact endPass _ _ (c.releaseLists giveBack _ (beginPass e he))

/-- A resource that is dropped is gone before its last pass. -/
theorem drop {m : Machine} (gone : P { m with resources := m.resources.set r none }) (h : P m) :
    P (m.drop r) := by
  unfold Machine.drop
  split
  · exact h
  · dsimp only
    split
    · exact gone
    · refine endPass _ _ (c.releaseLists giveBack _ ?_)
      split
      · exact gone
      · exact c.emit rfl gone

end Passes

end DrainStable

/-- A release pass takes nothing from the system, and does not change what is decided outside. -/
theorem Machine.environment_releaseCached (m : Machine) (r : ResourceId) :
    (m.releaseCached r).2.environment = m.environment ∧
      (m.releaseCached r).2.memory.blocks.length = m.memory.blocks.length := by
  have hstable : DrainStable fun n => n.environment = m.environment ∧
      n.memory.blocks.length = m.memory.blocks.length := by
    refine ⟨fun _ h => h, fun _ h => h, ?_, ?_⟩
    · intro n b f h
      exact ⟨h.1, (SystemMemory.length_blocks_modify n.memory b f).trans h.2⟩
    · intro n s q b k h
      rwa [memory_freeBlock, environment_freeBlock]
  refine hstable.releaseCached ?_ (fun _ _ h => h) (fun _ _ => ⟨rfl, rfl⟩) ⟨rfl, rfl⟩
  intro n b bytes alignment h
  rwa [memory_giveBack, environment_giveBack]

/-! ## A resource that stays -/

/-- An emulated resource is there and has a property. -/
def Machine.Has (r : ResourceId) (P : Emulated → Prop) (m : Machine) : Prop :=
  ∃ e, m.emulated? r = some e ∧ P e

namespace Machine.Has

variable {m m' : Machine} {q r : ResourceId} {P : Emulated → Prop} {e e' : Emulated}

theorem of_some (h : m.Has r P) (he : m.emulated? r = some e) : P e := by
  obtain ⟨f, hf, hP⟩ := h
  obtain rfl : e = f := Option.some.inj (he.symm.trans hf)
  exact hP

theorem congr (h : m.Has r P) (hr : m'.resources = m.resources) : m'.Has r P := by
  unfold Has
  rw [emulated?_congr hr]
  exact h

theorem setEmulated (h : m.Has r P) (he : m.emulated? q = some e) (hP : P e → P e') :
    (m.setEmulated q e').Has r P := by
  obtain ⟨f, hf, hPf⟩ := h
  refine ⟨if r = q then e' else f, ?_, ?_⟩
  · rw [emulated?_setEmulated he]
    split
    · rfl
    · exact hf
  · split
    · rename_i hq
      subst hq
      exact hP (of_some ⟨f, hf, hPf⟩ he)
    · exact hPf

/-- What happens to the heap of another resource does not concern a resource. -/
theorem setHeap (h : m.Has r P) {x : Resource} (hx : m.resource? q = some x) {heap : Heap}
    (hP : q = r → ∀ e, P e → P { e with heap }) : (m.setResource q (x.setHeap heap)).Has r P := by
  cases x with
  | emulated e =>
    by_cases hq : q = r
    · exact h.setEmulated (emulated?_eq_some.mpr hx) (hP hq e)
    · obtain ⟨f, hf, hPf⟩ := h
      refine ⟨f, ?_, hPf⟩
      rw [emulated?_setResource (lt_of_resource? hx), if_neg (Ne.symm hq)]
      exact hf
  | _ =>
    obtain ⟨f, hf, hPf⟩ := h
    refine ⟨f, ?_, hPf⟩
    rw [emulated?_setResource (lt_of_resource? hx), if_neg]
    · exact hf
    · rintro rfl
      rw [emulated?_eq_some, hx] at hf
      cases hf

theorem giveBack (h : m.Has r P) {b : BlockId} {bytes alignment : Nat}
    (hP : ∀ e heap, P e → P { e with heap }) : (m.giveBack q b bytes alignment).Has r P := by
  have hback : (m.emit (.returned b (Heap.layout bytes alignment))).Has r P := h.congr rfl
  rcases m.giveBack_eq q b bytes alignment with ⟨-, e⟩ | ⟨x, hx, e⟩
  · rw [e]
    exact hback
  · rw [e]
    exact hback.setHeap hx fun _ e => hP e _

/-- Operations do nothing to a resource but release blocks. -/
theorem drainStable (hP : ∀ e k b, P e → P (e.cache k b)) : DrainStable fun m => m.Has r P where
  streams _ h := h.congr rfl
  emit _ h := h.congr rfl
  contents _ _ h := h.congr rfl
  free := by
    intro m s q b k h
    rcases m.freeBlock_eq s q b k with hf | ⟨e, he, hf⟩
    · rw [hf]
      exact h.congr rfl
    · have hreleased : (m.emit (.released ⟨b, q, k.bytes, k.alignment⟩)).Has r P := h.congr rfl
      have hcached : ((m.emit (.released ⟨b, q, k.bytes, k.alignment⟩)).setEmulated q
          (e.cache k b)).Has r P := hreleased.setEmulated he (hP e k b)
      rw [hf]
      exact hcached.congr rfl

end Machine.Has

namespace Machine

variable {m : Machine} {r : ResourceId}

theorem emulated?_drain (request : DrainRequest) (s : StreamId)
    (h : (m.emulated? r).isSome = true) : ((m.drain request s).2.emulated? r).isSome = true := by
  obtain ⟨e, he⟩ := Option.isSome_iff_exists.mp h
  have hstable : DrainStable fun m => m.Has r fun _ => True :=
    Has.drainStable fun _ _ _ _ => trivial
  obtain ⟨f, hf, -⟩ := hstable.drain request s ⟨e, he, trivial⟩
  rw [hf]
  rfl

theorem emulated?_synchronizeNoThrow (s : StreamId) (h : (m.emulated? r).isSome = true) :
    ((m.synchronizeNoThrow s).emulated? r).isSome = true := by
  have hd := emulated?_drain .synchronize s h
  rcases m.synchronizeNoThrow_eq s with e | ⟨f, e⟩
  · rw [e]
    exact hd
  · rw [e]
    exact hd

theorem emulated?_takeReserved {e e' : Emulated} {k : BlockKey} {b : BlockId} {m' : Machine}
    (he : m.emulated? r = some e) (h : m.takeReserved r e' k = (.ok b, m')) :
    (m'.emulated? r).isSome = true := by
  unfold takeReserved at h
  split at h
  · cases h
  · rename_i b' heap m₁ hb
    cases h
    obtain ⟨-, -, rfl⟩ := takeBlock_eq_ok hb
    have hq := emulated?_setEmulated (m := { m with
      memory := { m.memory with
        blocks := m.memory.blocks ++ [⟨Heap.layout k.bytes k.alignment, .zero⟩] }
      trace := .obtained ⟨b, r, k.bytes, k.alignment⟩ :: m.trace }) he (e'.allocated heap) r
    change (Machine.emulated? (Machine.setEmulated _ r (e'.allocated heap)) r).isSome = true
    rw [hq, if_pos rfl]
    rfl

theorem emulated?_allocateAsync {k : BlockKey} {b : BlockId} {m' : Machine}
    (h : m.allocateAsync r k = (.ok b, m')) : (m'.emulated? r).isSome = true := by
  unfold allocateAsync at h
  split at h
  · cases h
  · rename_i e he
    split at h
    · split at h
      · rename_i b' e' hu
        cases h
        change ((m.setEmulated r e').emulated? r).isSome = true
        rw [emulated?_setEmulated he, if_pos rfl]
        rfl
      · split at h
        · exact emulated?_takeReserved he h
        · split at h
          · unfold reclaimFor at h
            dsimp only at h
            split at h
            · rename_i hb
              obtain ⟨f, hf, -⟩ := Option.bind_eq_some_iff.mp hb
              exact emulated?_takeReserved hf h
            · cases h
          · cases h
    · cases h

end Machine

end StreamMemory
