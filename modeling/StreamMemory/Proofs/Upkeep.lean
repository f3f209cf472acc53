import StreamMemory.Proofs.Drains

/-!
# What requests keep

Calls are put together from moves of blocks: between the free lists, the hands of the machine while
it serves a request, the hands of callers, and the system. Each move comes here with the log entry
that is written for it, and with what allows it: only a call that asks a resource for a block takes
one out of it, and only such a call, or a call for a pass, makes it run a release pass. A property
that is kept by each move is kept by the whole call (`Upkeep.call`).
-/

set_option autoImplicit false

namespace StreamMemory

namespace Call

def allocates : Call → Bool
  | .allocateAsync .. | .allocate .. => true
  | _ => false

/-- Whether a call changes what a block contains. -/
def writes : Call → Bool
  | .write .. | .copy .. => true
  | _ => false

/-- Whether a call asks a resource for a block. -/
def asks (r : ResourceId) : Call → Bool
  | .allocateAsync q _ | .allocate q .. => q == r
  | _ => false

theorem asks_allocateAsync (r : ResourceId) (k : BlockKey) : (allocateAsync r k).asks r = true :=
  beq_self_eq_true r

theorem asks_allocate (r : ResourceId) (bytes alignment : Nat) :
    (allocate r bytes alignment).asks r = true :=
  beq_self_eq_true r

theorem ne_of_asks {c : Call} {q r : ResourceId} (hr : c.asks r = false) (hq : c.asks q = true) :
    q ≠ r := by
  rintro rfl
  exact Bool.noConfusion (hr.symm.trans hq)

theorem asks_of_not_allocates {c : Call} (h : c.allocates = false) (r : ResourceId) :
    c.asks r = false := by
  cases c <;> first | rfl | cases h

theorem writes_of_allocates {c : Call} (h : c.allocates = true) : c.writes = false := by
  cases c <;> first | rfl | cases h

end Call

/-! ## Moves of blocks -/

/-- A block that was given up through a resource is in hand. It is a block of that resource, unless
there is exchange between resources and it cannot get into free lists. -/
def Taken (exchange : Prop) (I : Machine → List Parcel → Prop) (m : Machine) (r : ResourceId)
    (x : Loan) (s : StreamId) : Prop :=
  ∃ q, (q = r ∨ exchange ∧ m.emulated? r = none) ∧
    I (m.emit (.released x)) [⟨q, ⟨s, x.bytes, x.alignment⟩, x.block⟩]

/-- A property of a machine and of the blocks in its hands that every move of a call keeps but the
last one, by which a caller is handed a block. Calls that bring something from outside need a law.
With `exchange`, blocks of one resource may be given up through another. -/
structure Upkeep (law : Machine → Call → Prop) (exchange : Prop) (c : Call)
    (I : Machine → List Parcel → Prop) : Prop where
  note : ∀ {m hand} {e : Event}, e.idle = true → e.works = false → I m hand → I (m.emit e) hand
  frame : ∀ {m m' : Machine} {hand}, c.writes = true ∨ m'.memory = m.memory →
    m'.streams = m.streams → m'.resources = m.resources → m'.trace = m.trace →
    m'.memory.blocks.map Block.layout = m.memory.blocks.map Block.layout →
    m'.environment = m.environment → I m hand → I m' hand
  drain : ∀ {m hand} request s, I m hand → I (m.drain request s).2 hand
  reuse : ∀ {m hand r b} {e e' : Emulated} {k : BlockKey}, c.asks r = true →
    m.emulated? r = some e → e.reuse? k = some (b, e') → I m hand →
    I ((m.setEmulated r e').log (.reused k.stream k.bytes)) (⟨r, k, b⟩ :: hand)
  refuse : ∀ {m hand r} {e e' : Emulated} {k : BlockKey}, c.asks r = true →
    m.emulated? r = some e → e.reserve? k.bytes = some e' → I m hand →
    I (m.setEmulated r (e'.unreserve k.bytes)) hand
  fresh : ∀ {m m' hand r heap b} {e e' : Emulated} {k : BlockKey}, c.asks r = true →
    m.emulated? r = some e → e.reserve? k.bytes = some e' →
    m.takeBlock r e'.heap k.bytes k.alignment = .ok (b, heap, m') → I m hand →
    I ((m'.setEmulated r (e'.allocated heap)).log (.allocated k.stream k.bytes))
      (⟨r, k, b⟩ :: hand)
  cache : ∀ {m hand r k b} {e : Emulated}, m.emulated? r = some e → I m (⟨r, k, b⟩ :: hand) →
    I (m.cacheBlock r e b k) hand
  pass : ∀ {m hand r} {e : Emulated},
    c = .releaseCached r ∧ law m c ∨ c.asks r = true ∧ e.config.reclaim = true →
    m.emulated? r = some e → I m hand → I (m.releaseCached r).2 hand
  drop : ∀ {m hand r}, c = .drop r → law m c → I m hand → I (m.drop r) hand
  plainFresh : ∀ {m m' hand r heap b} {x : Resource} {k : BlockKey}, c.asks r = true →
    m.resource? r = some x → x.emulated? = none →
    m.takeBlock r x.heap k.bytes k.alignment = .ok (b, heap, m') → I m hand →
    I (m'.setResource r (x.setHeap heap)) (⟨r, k, b⟩ :: hand)
  plainReturn : ∀ {m hand r} {x : Resource} {p : Parcel}, m.resource? r = some x →
    x.emulated? = none → p.resource = r ∨ exchange → I m (p :: hand) →
    I (m.giveBack r p.block p.key.bytes p.key.alignment) hand
  build : ∀ {m blueprint}, c = .build blueprint → law m c → I m [] → I (m.build blueprint) []
  createStream : ∀ {m}, c = .createStream → I m [] → I m.createStream.2 []
  enqueue : ∀ {m s op}, c = .enqueue s op → law m c → I m [] → I (m.enqueue s op) []
  releaseAsync : ∀ {m r x s}, c = .releaseAsync r x s → law m c →
    (m.backend? r).isSome = true → I m [] → Taken exchange I m r x s
  release : ∀ {m r x}, c = .release r x → law m c → (m.resource? r).isSome = true →
    I m [] → Taken exchange I m r x defaultStream

namespace Upkeep

variable {law : Machine → Call → Prop} {exchange : Prop} {c : Call}
variable {I : Machine → List Parcel → Prop} {m : Machine} {hand : List Parcel} {r : ResourceId}
variable {k : BlockKey}

/-- The block of a request that was served is in hand. -/
def Served (I : Machine → List Parcel → Prop) (r : ResourceId) (k : BlockKey)
    (hand : List Parcel) : Except Failure BlockId × Machine → Prop :=
  Backend.Outcome (fun m => I m hand) (fun b m => I m (⟨r, k, b⟩ :: hand))

theorem Served.lend {o : Except Failure BlockId × Machine} (h : Served I r k hand o)
    (lend : ∀ {m b}, I m (⟨r, k, b⟩ :: hand) →
      I (m.emit (.lent ⟨b, r, k.bytes, k.alignment⟩)) hand) :
    I (Machine.lend r k.bytes k.alignment o) hand := by
  rcases o with ⟨f | b, m⟩
  · exact h
  · exact lend h

/-- What does not depend on the blocks in hand holds whether the request was served or not. -/
theorem Served.snd {P : Machine → Prop} {o : Except Failure BlockId × Machine}
    (h : Served I r k [] o) (keeps : ∀ {m hand}, I m hand → P m) : P o.2 := by
  rcases o with ⟨f | b, m⟩
  · exact keeps h
  · exact keeps h

variable (u : Upkeep law exchange c I)
include u

theorem synchronizeNoThrow (s : StreamId) (h : I m hand) : I (m.synchronizeNoThrow s) hand := by
  have hd : I (m.synchronize s).2 hand := u.drain .synchronize s h
  rcases m.synchronizeNoThrow_eq s with e | ⟨f, e⟩
  · rw [e]
    exact hd
  · rw [e]
    exact u.note rfl rfl hd

/-! ### Requests to an emulated resource -/

theorem takeReserved (hasks : c.asks r = true) {e e' : Emulated} (he : m.emulated? r = some e)
    (hr : e.reserve? k.bytes = some e') (h : I m hand) :
    Served I r k hand (m.takeReserved r e' k) := by
  unfold Machine.takeReserved
  split
  · exact u.refuse hasks he hr h
  · rename_i hb
    exact u.fresh hasks he hr hb h

theorem reclaimFor (hasks : c.asks r = true) {e : Emulated} (he : m.emulated? r = some e)
    (hreclaim : e.config.reclaim = true) (h : I m hand) :
    Served I r k hand (m.reclaimFor r e k) := by
  have hnoted : I (m.log (.exhausted e.kind k.bytes)) hand := u.note rfl rfl h
  have hpassed := u.pass (m := m.log (.exhausted e.kind k.bytes)) (.inr ⟨hasks, hreclaim⟩) he hnoted
  unfold Machine.reclaimFor
  dsimp only
  split
  · rename_i hb
    obtain ⟨f, hf, hr⟩ := Option.bind_eq_some_iff.mp hb
    exact u.takeReserved hasks hf hr hpassed
  · exact hpassed

theorem allocateAsync (hasks : c.asks r = true) (k : BlockKey) (h : I m hand) :
    Served I r k hand (m.allocateAsync r k) := by
  unfold Machine.allocateAsync
  split
  · exact h
  · rename_i e he
    split
    · split
      · rename_i hu
        exact u.reuse hasks he hu h
      · split
        · rename_i hr
          exact u.takeReserved hasks he hr h
        · split
          · rename_i hreclaim
            exact u.reclaimFor hasks he hreclaim h
          · exact h
    · exact h

theorem deallocateAsync {e : Emulated} {b : BlockId} (he : m.emulated? r = some e)
    (h : I m (⟨r, k, b⟩ :: hand)) : I (m.deallocateAsync r b k) hand := by
  unfold Machine.deallocateAsync
  rw [he]
  exact u.cache he h

theorem allocateEmulated (hasks : c.asks r = true) (bytes alignment : Nat) (h : I m hand) :
    Served I r ⟨defaultStream, bytes, alignment⟩ hand
      ((Machine.emulatedBackend r).allocate m bytes alignment) := by
  -- the resource is still there when the block in hand has to go back
  let held (b : BlockId) (m : Machine) : Prop :=
    I m (⟨r, ⟨defaultStream, bytes, alignment⟩, b⟩ :: hand) ∧ (m.emulated? r).isSome = true
  have hall : Backend.Outcome (fun m => I m hand) held
      ((Machine.emulatedBackend r).allocate m bytes alignment) := by
    apply Backend.allocate_outcome (k := Machine.emulatedBackend r) (P := fun m => I m hand)
      (H := held) bytes alignment ?_ ?_ ?_ ?_ h
    · intro m result m' hm hs
      obtain rfl : (m.synchronize defaultStream).2 = m' := congrArg Prod.snd hs
      exact u.drain .synchronize defaultStream hm
    · rintro b m result m' ⟨hm, he⟩ hs
      obtain rfl : (m.synchronize defaultStream).2 = m' := congrArg Prod.snd hs
      exact ⟨u.drain .synchronize defaultStream hm, Machine.emulated?_drain _ _ he⟩
    · intro m hm
      have hserved := u.allocateAsync hasks ⟨defaultStream, bytes, alignment⟩ hm
      change Backend.Outcome _ _ (m.allocateAsync r ⟨defaultStream, bytes, alignment⟩)
      rcases ha : m.allocateAsync r ⟨defaultStream, bytes, alignment⟩ with ⟨f | b, m'⟩
      · rw [ha] at hserved
        exact hserved
      · rw [ha] at hserved
        exact ⟨hserved, Machine.emulated?_allocateAsync ha⟩
    · rintro b m ⟨hm, he⟩
      obtain ⟨e, he⟩ := Option.isSome_iff_exists.mp he
      exact u.deallocateAsync he hm
  exact hall.mono (fun _ hm => hm) (fun _ _ hm => hm.1)

theorem deallocateEmulated {b : BlockId} {bytes alignment : Nat}
    (hthere : (m.emulated? r).isSome = true)
    (h : I m (⟨r, ⟨defaultStream, bytes, alignment⟩, b⟩ :: hand)) :
    I ((Machine.emulatedBackend r).deallocate m b bytes alignment) hand := by
  have hs := u.synchronizeNoThrow defaultStream h
  obtain ⟨e, he⟩ := Option.isSome_iff_exists.mp
    (Machine.emulated?_synchronizeNoThrow defaultStream hthere)
  exact u.deallocateAsync he hs

/-! ### Requests to other resources -/

theorem allocateFromHeap (hasks : c.asks r = true) (hp : m.emulated? r = none) (h : I m hand) :
    Served I r k hand (m.allocateFromHeap r k.bytes k.alignment) := by
  unfold Machine.allocateFromHeap
  split
  · exact h
  · rename_i x hx
    split
    · exact h
    · rename_i hb
      obtain ⟨y, hy, hn⟩ := Machine.plain_of_emulated?_eq_none hx hp
      obtain rfl : x = y := Option.some.inj (hx.symm.trans hy)
      exact u.plainFresh hasks hx hn hb h

theorem synchronizeRecorded {m' : Machine} {s : StreamId} {result : Except Failure Unit}
    (hs : m.synchronizeRecorded s = (result, m')) (h : I m hand) :
    I m' hand ∧ m'.resources = m.resources := by
  have hn : I (m.emit (.hook (.synchronize s))) hand := u.note rfl rfl h
  unfold Machine.synchronizeRecorded at hs
  dsimp only at hs
  split at hs
  · cases hs
    exact ⟨hn, rfl⟩
  · cases hs
    exact ⟨hn, rfl⟩
  · cases hs
    refine ⟨u.frame (.inr ?_) ?_ ?_ ?_ ?_ ?_ hn, rfl⟩ <;> rfl

theorem synchronizeRecordedNoThrow (s : StreamId) (h : I m hand) :
    I (Machine.recordedStreams.synchronizeNoThrow m s) hand ∧
      (Machine.recordedStreams.synchronizeNoThrow m s).resources = m.resources := by
  unfold Synchronizer.synchronizeNoThrow
  split
  · rename_i hs
    exact u.synchronizeRecorded hs h
  · rename_i hs
    obtain ⟨hm, hr⟩ := u.synchronizeRecorded hs h
    exact ⟨u.note rfl rfl hm, hr⟩

theorem returnPlain {p : Parcel} (hp : m.Plain r) (hq : p.resource = r ∨ exchange)
    (h : I m (p :: hand)) : I (m.giveBack r p.block p.key.bytes p.key.alignment) hand := by
  obtain ⟨x, hx, hn⟩ := hp
  exact u.plainReturn hx hn hq h

theorem allocateAsyncRecorded (hasks : c.asks r = true) (hr : m.Plain r) (k : BlockKey)
    (h : I m hand) :
    Backend.Outcome (fun m => I m hand ∧ m.Plain r)
      (fun b m => I m (⟨r, k, b⟩ :: hand) ∧ m.Plain r)
      ((Machine.recordedBackend r).allocateAsync m k.bytes k.alignment k.stream) := by
  have hn : I (m.emit (.hook (.allocate k.stream))) hand := u.note rfl rfl h
  have hserved := u.allocateFromHeap (k := k) (m := m.emit (.hook (.allocate k.stream))) hasks
    hr.emulated? hn
  have hplain := Machine.Plain.allocateFromHeap (m := m.emit (.hook (.allocate k.stream))) hr
    k.bytes k.alignment
  change Backend.Outcome _ _
    ((m.emit (.hook (.allocate k.stream))).allocateFromHeap r k.bytes k.alignment)
  revert hserved hplain
  rcases (m.emit (.hook (.allocate k.stream))).allocateFromHeap r k.bytes k.alignment with
    ⟨f | b, m'⟩
  · exact fun hs hx => ⟨hs, hx⟩
  · exact fun hs hx => ⟨hs, hx⟩

theorem releaseRecorded {q : ResourceId} (hr : m.Plain r) {b : BlockId} (hq : q = r ∨ exchange)
    (h : I m (⟨q, k, b⟩ :: hand)) :
    I ((Machine.recordedBackend r).deallocateAsync m b k.bytes k.alignment k.stream) hand := by
  have hn : I (m.emit (.hook (.deallocate k.stream))) (⟨q, k, b⟩ :: hand) := u.note rfl rfl h
  exact u.returnPlain (m := m.emit (.hook (.deallocate k.stream))) hr hq hn

theorem allocateRecorded (hasks : c.asks r = true) (hr : m.Plain r) (bytes alignment : Nat)
    (h : I m hand) :
    Served I r ⟨defaultStream, bytes, alignment⟩ hand
      ((Machine.recordedBackend r).allocate m bytes alignment) := by
  let held (b : BlockId) (m : Machine) : Prop :=
    I m (⟨r, ⟨defaultStream, bytes, alignment⟩, b⟩ :: hand) ∧ m.Plain r
  have hall : Backend.Outcome (fun m => I m hand ∧ m.Plain r) held
      ((Machine.recordedBackend r).allocate m bytes alignment) := by
    apply Backend.allocate_outcome (k := Machine.recordedBackend r)
      (P := fun m => I m hand ∧ m.Plain r) (H := held) bytes alignment ?_ ?_ ?_ ?_ ⟨h, hr⟩
    · rintro m result m' ⟨hm, hx⟩ hs
      obtain ⟨hm', hres⟩ := u.synchronizeRecorded hs hm
      exact ⟨hm', hx.congr hres⟩
    · rintro b m result m' ⟨hm, hx⟩ hs
      obtain ⟨hm', hres⟩ := u.synchronizeRecorded hs hm
      exact ⟨hm', hx.congr hres⟩
    · rintro m ⟨hm, hx⟩
      exact u.allocateAsyncRecorded hasks hx ⟨defaultStream, bytes, alignment⟩ hm
    · rintro b m ⟨hm, hx⟩
      have hreleased := u.releaseRecorded hx (.inl rfl) hm
      exact ⟨hreleased, Machine.Plain.giveBack (m := m.emit (.hook (.deallocate defaultStream)))
        hx b bytes alignment⟩
  exact hall.mono (fun _ hm => hm.1) (fun _ _ hm => hm.1)

/-! ### Requests to any resource -/

theorem allocateBackend (hasks : c.asks r = true) {backend : Backend Machine StreamId}
    (hb : m.backend? r = some backend) (k : BlockKey) (h : I m hand) :
    Served I r k hand (backend.allocateAsync m k.bytes k.alignment k.stream) := by
  rcases Machine.backend?_eq_some hb with ⟨e, -, rfl⟩ | ⟨heap, hr, rfl⟩
  · exact u.allocateAsync hasks k h
  · have hserved := u.allocateAsyncRecorded hasks ⟨_, hr, rfl⟩ k h
    exact hserved.mono (fun _ hm => hm.1) (fun _ _ hm => hm.1)

theorem allocate (hasks : c.asks r = true) (bytes alignment : Nat) (h : I m hand) :
    Served I r ⟨defaultStream, bytes, alignment⟩ hand (m.allocate r bytes alignment) := by
  unfold Machine.allocate
  split
  · rename_i backend hb
    rcases Machine.backend?_eq_some hb with ⟨e, -, rfl⟩ | ⟨heap, hr, rfl⟩
    · exact u.allocateEmulated hasks bytes alignment h
    · exact u.allocateRecorded hasks ⟨_, hr, rfl⟩ bytes alignment h
  · rename_i hb
    exact u.allocateFromHeap (k := ⟨defaultStream, bytes, alignment⟩) hasks
      (Machine.emulated?_of_backend?_eq_none hb) h

/-! ### Calls -/

theorem callReleaseAsync {x : Loan} {s : StreamId} (hc : c = .releaseAsync r x s)
    (hl : law m c) (h : I m []) : I (m.call (.releaseAsync r x s)) [] := by
  unfold Machine.call
  dsimp only
  split
  · rename_i backend hb
    obtain ⟨q, hq, hi⟩ := u.releaseAsync hc hl (by rw [hb]; rfl) h
    rcases Machine.backend?_eq_some hb with ⟨e, he, rfl⟩ | ⟨heap, hr, rfl⟩
    · obtain rfl : q = r := by simpa [he] using hq
      exact u.deallocateAsync (m := m.emit (.released x)) he hi
    · exact u.releaseRecorded (m := m.emit (.released x)) (k := ⟨s, x.bytes, x.alignment⟩)
        ⟨_, hr, rfl⟩ (hq.imp_right And.left) hi
  · exact h

theorem callRelease {x : Loan} (hc : c = .release r x) (hl : law m c) (h : I m []) :
    I (m.call (.release r x)) [] := by
  unfold Machine.call
  dsimp only
  split
  · rename_i y hy
    obtain ⟨q, hq, hi⟩ := u.release hc hl (by rw [hy]; rfl) h
    unfold Machine.deallocate
    split
    · rename_i backend hb
      rcases Machine.backend?_eq_some hb with ⟨e, he, rfl⟩ | ⟨heap, hr, rfl⟩
      · have he' : m.emulated? r = some e := he
        obtain rfl : q = r := by simpa [he'] using hq
        exact u.deallocateEmulated (by rw [he]; rfl) hi
      · obtain ⟨hs, hres⟩ := u.synchronizeRecordedNoThrow defaultStream hi
        have hp : (m.emit (.released x)).Plain r := ⟨_, hr, rfl⟩
        exact u.releaseRecorded (k := ⟨defaultStream, x.bytes, x.alignment⟩) (hp.congr hres)
          (hq.imp_right And.left) hs
    · rename_i hb
      have hp : (m.emit (.released x)).Plain r :=
        Machine.plain_of_emulated?_eq_none hy (Machine.emulated?_of_backend?_eq_none hb)
      exact u.returnPlain (p := ⟨q, ⟨defaultStream, x.bytes, x.alignment⟩, x.block⟩) hp
        (hq.imp_right And.left) hi
  · exact h

theorem call
    (lend : ∀ {m p hand}, c.asks p.resource = true → I m (p :: hand) →
      I (m.emit (.lent p.loan)) hand)
    (hl : law m c) (h : I m []) : I (m.call c) [] := by
  cases hc : c with
  | build blueprint => exact u.build hc hl h
  | createStream => exact u.createStream hc h
  | enqueue s op => exact u.enqueue hc hl h
  | synchronize s => exact u.drain .synchronize s h
  | synchronizeNoThrow s => exact u.synchronizeNoThrow s h
  | destroy s => exact u.drain .destroy s h
  | allocateAsync r k =>
    have hasks : c.asks r = true := hc ▸ Call.asks_allocateAsync r k
    unfold Machine.call
    dsimp only
    split
    · rename_i backend hb
      exact (u.allocateBackend hasks hb k h).lend (lend hasks)
    · exact h
  | allocate r bytes alignment =>
    have hasks : c.asks r = true := hc ▸ Call.asks_allocate r bytes alignment
    exact (u.allocate hasks bytes alignment h).lend (lend hasks)
  | releaseAsync r x s => exact u.callReleaseAsync hc hl h
  | release r x => exact u.callRelease hc hl h
  | releaseCached r =>
    cases he : m.emulated? r with
    | none => simpa [Machine.call, Machine.releaseCached, he] using h
    | some e => exact u.pass (.inl ⟨hc, hl⟩) he h
  | drop r => exact u.drop hc hl h
  | write b byte length offset =>
    refine u.frame (.inl (hc ▸ rfl)) ?_ ?_ ?_ ?_ ?_ h
    · rfl
    · rfl
    · rfl
    · exact SystemMemory.layouts_modify _ _ _
    · rfl
  | copy source target length =>
    refine u.frame (.inl (hc ▸ rfl)) ?_ ?_ ?_ ?_ ?_ h
    · rfl
    · rfl
    · rfl
    · exact SystemMemory.layouts_modify _ _ _
    · rfl
  | failSynchronizeAfter successes => refine u.frame (.inr ?_) ?_ ?_ ?_ ?_ ?_ h <;> rfl
  | synchronizeRecorded s => exact (u.synchronizeRecordedNoThrow s h).1

end Upkeep

end StreamMemory
