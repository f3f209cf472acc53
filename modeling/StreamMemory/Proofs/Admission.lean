import StreamMemory.Proofs.Accounting
import StreamMemory.Proofs.Ownership
import StreamMemory.Proofs.StreamOrder

/-!
# Which requests are admitted

Cached blocks count against the capacity, but with `reclaim` they are given back before a request
fails. So a resource with a cache admits just what an allocator without one admits: that allocator
counts the bytes in use and asks the heap, and nothing else (`Uncached`). The two are kept next to
each other, call by call (`Mirrors`).
-/

set_option autoImplicit false

namespace StreamMemory

/-! ## What was lent and released -/

namespace Event

def lent? : Event → Option Loan
  | lent x => some x
  | _ => none

def released? : Event → Option Loan
  | released x => some x
  | _ => none

end Event

/-- What callers were ever handed. -/
def lents (trace : List Event) : List Loan := trace.filterMap Event.lent?

/-- What callers and operations ever gave up. -/
def releases (trace : List Event) : List Loan := trace.filterMap Event.released?

theorem lents_cons {e : Event} (trace : List Event) (h : e.moves = false) :
    lents (e :: trace) = lents trace := by
  cases e <;> first | rfl | cases h

theorem releases_mono (r : ResourceId) {past now : List Event} (h : past <:+ now) :
    total (Loan.share r) (releases past) ≤ total (Loan.share r) (releases now) := by
  obtain ⟨es, rfl⟩ := h
  unfold releases
  rw [List.filterMap_append, total_append]
  exact Nat.le_add_left _ _

/-- What was lent is on loan or was released. -/
theorem share_onLoan (r : ResourceId) {trace : List Event} (h : FairReleases trace) :
    total (Loan.share r) (onLoan trace) + total (Loan.share r) (releases trace) =
      total (Loan.share r) (lents trace) := by
  induction trace with
  | nil => rfl
  | cons e trace ih =>
    have hpast := ih h.tail
    cases e with
    | lent x =>
      have hloan : onLoan (.lent x :: trace) = x :: onLoan trace := rfl
      have hlents : lents (.lent x :: trace) = x :: lents trace := rfl
      have hreleases : releases (.lent x :: trace) = releases trace := rfl
      rw [hloan, hlents, hreleases, total_cons, total_cons]
      omega
    | released x =>
      have hloan : onLoan (.released x :: trace) = (onLoan trace).erase x := rfl
      have hlents : lents (.released x :: trace) = lents trace := rfl
      have hreleases : releases (.released x :: trace) = x :: releases trace := rfl
      have herase := total_perm (Loan.share r) (List.perm_cons_erase h.1)
      rw [total_cons] at herase
      rw [hloan, hlents, hreleases, total_cons]
      omega
    | _ => exact hpast

theorem lents_takeBlock {m m' : Machine} {r : ResourceId} {heap heap' : Heap}
    {bytes alignment : Nat} {b : BlockId}
    (hb : m.takeBlock r heap bytes alignment = .ok (b, heap', m')) :
    lents m'.trace = lents m.trace := by
  obtain ⟨-, -, rfl⟩ := Machine.takeBlock_eq_ok hb
  rfl

theorem lents_giveBack (m : Machine) (r : ResourceId) (b : BlockId) (bytes alignment : Nat) :
    lents (m.giveBack r b bytes alignment).trace = lents m.trace := by
  rw [Machine.trace_giveBack]
  rfl

theorem drainStable_lents (ls : List Loan) : DrainStable fun m => lents m.trace = ls where
  streams _ h := h
  emit he h := (lents_cons _ (Event.moves_of_idle he)).trans h
  contents _ _ h := h
  free {m} s r b k h := by
    rcases m.freeBlock_eq s r b k with hf | ⟨e, -, hf⟩
    · rw [hf]
      exact h
    · rw [hf]
      exact h

theorem handling_lents (ls : List Loan) :
    Handling (fun _ _ => True) True fun m _ _ => lents m.trace = ls where
  note he _ h := (lents_cons _ he).trans h
  frame _ _ ht _ _ h := ht ▸ h
  drain request s h := (drainStable_lents ls).drain request s h
  reuse _ _ h := h
  refuse _ _ h := h
  fresh _ _ hb h := (lents_takeBlock hb).trans h
  cache _ h := h
  beginPass _ h := h
  discard _ _ h := h
  reorder _ h := h
  releaseKey {_ hand _ _ _ lists} h :=
    Custody.releaseKey_of_giveBack (I := fun m _ _ => lents m.trace = ls)
      (fun he _ hn => (lents_cons _ he).trans hn)
      (fun request s hn => (drainStable_lents ls).drain request s hn)
      (fun {m _ _ r b k} hn => (lents_giveBack m r b k.bytes k.alignment).trans hn) hand lists h
  plainFresh _ _ hb h := (lents_takeBlock hb).trans h
  plainReturn {m _ _ r _ p} _ _ _ h :=
    (lents_giveBack m r p.block p.key.bytes p.key.alignment).trans h
  build {m blueprint} _ h := by cases blueprint <;> exact h
  enqueue _ h := h
  releaseAsync {_ r _ _} _ _ h := ⟨r, .inl rfl, h⟩
  release {_ r _} _ _ h := ⟨r, .inl rfl, h⟩

/-- What the calls of one resource were lent depends on the calls that ask for a block. -/
theorem total_lents_lend (r q : ResourceId) (bytes alignment : Nat)
    (o : Except Failure BlockId × Machine) :
    total (Loan.share r) (lents (Machine.lend q bytes alignment o).trace) =
      total (Loan.share r) (lents o.2.trace) +
        if q = r ∧ o.1.isOk = true then bytes else 0 := by
  rcases o with ⟨f | b, m⟩
  · simp [Machine.lend, Except.isOk, Except.toBool]
  · have hlents : lents (Machine.lend q bytes alignment (.ok b, m)).trace =
        ⟨b, q, bytes, alignment⟩ :: lents m.trace := rfl
    rw [hlents, total_cons, Nat.add_comm]
    simp [Loan.share, Except.isOk, Except.toBool]

/-! ## What the heap serves -/

/-- Whether the system serves a layout does not depend on what happened. -/
def Environment.Steady (env : Environment) (serves : Layout → Bool) : Prop :=
  ∀ past, env.serves past = serves

/-- The heap serves a request for so many bytes. -/
def Serves (serves : Layout → Bool) (bytes alignment : Nat) : Prop :=
  Heap.refusal? bytes alignment = none ∧ serves (Heap.layout bytes alignment) = true

/-- Whatever was had from the system can be had again. -/
structure Machine.Supplied (serves : Layout → Bool) (m : Machine) : Prop where
  steady : m.environment.Steady serves
  had : ∀ x ∈ obtained m.trace, Serves serves x.bytes x.alignment

namespace Machine.Supplied

variable {serves : Layout → Bool} {m m' : Machine} {r : ResourceId}

theorem congr (h : m.Supplied serves) (hv : m'.environment = m.environment)
    (ht : obtained m'.trace = obtained m.trace) : m'.Supplied serves := by
  refine ⟨hv ▸ h.steady, ?_⟩
  rw [ht]
  exact h.had

theorem note (h : m.Supplied serves) {e : Event} (he : e.moves = false) :
    (m.emit e).Supplied serves :=
  h.congr rfl (obtained_cons m.trace he)

theorem takeBlock (h : m.Supplied serves) {heap heap' : Heap} {bytes alignment : Nat} {b : BlockId}
    (hb : m.takeBlock r heap bytes alignment = .ok (b, heap', m')) : m'.Supplied serves := by
  have hserved : Serves serves bytes alignment := by
    have hall : ∃ r, heap.allocate m.memory (m.environment.serves m.trace) bytes alignment =
        .ok r := by
      unfold Machine.takeBlock at hb
      split at hb
      · cases hb
      · exact ⟨_, ‹_›⟩
    rw [← h.steady m.trace]
    exact (heap.allocate_ok_iff m.memory _ bytes alignment).mp hall
  obtain ⟨-, -, rfl⟩ := takeBlock_eq_ok hb
  exact ⟨h.steady, List.forall_mem_cons.mpr ⟨hserved, h.had⟩⟩

theorem giveBack (h : m.Supplied serves) (r : ResourceId) (b : BlockId) (bytes alignment : Nat) :
    (m.giveBack r b bytes alignment).Supplied serves := by
  rcases m.giveBack_eq r b bytes alignment with ⟨-, e⟩ | ⟨x, -, e⟩
  · rw [e]
    exact h.congr rfl rfl
  · rw [e]
    exact h.congr rfl rfl

theorem drain (h : m.Supplied serves) (request : DrainRequest) (s : StreamId) :
    (m.drain request s).2.Supplied serves := by
  refine DrainStable.drain ⟨fun _ hm => hm.congr rfl rfl,
    fun he hm => hm.note (Event.moves_of_idle he),
    fun _ _ hm => hm.congr rfl rfl, ?_⟩ request s h
  intro m s r b k hm
  rcases m.freeBlock_eq s r b k with hf | ⟨e, -, hf⟩
  · rw [hf]
    exact hm.note rfl
  · rw [hf]
    exact hm.congr rfl rfl

end Machine.Supplied

theorem custody_supplied (serves : Layout → Bool) :
    Custody (fun _ _ => True) True fun m _ _ => m.Supplied serves where
  note he _ h := h.note he
  frame _ _ ht _ hv h := h.congr hv (by rw [ht])
  drain request s h := h.drain request s
  reuse _ _ h := h.congr rfl rfl
  refuse _ _ h := h.congr rfl rfl
  fresh _ _ hb h := (h.takeBlock hb).congr rfl rfl
  cache _ h := h.congr rfl rfl
  beginPass _ h := h.congr rfl rfl
  discard _ _ h := h.congr rfl rfl
  reorder _ h := h
  releaseKey {_ hand _ _ _ lists} h :=
    Custody.releaseKey_of_giveBack (I := fun m _ _ => m.Supplied serves)
      (fun he _ hn => hn.note he) (fun request s hn => hn.drain request s)
      (fun {_ _ _ r b k} hn => hn.giveBack r b k.bytes k.alignment) hand lists h
  plainFresh _ _ hb h := (h.takeBlock hb).congr rfl rfl
  plainReturn _ _ _ h := h.giveBack _ _ _ _
  lend h := h.congr rfl rfl
  build {m blueprint} _ h := by
    cases blueprint with
    | emulated kind config =>
      exact (h.note (e := .logged (.resourceCreated kind config)) rfl).congr rfl rfl
    | _ => exact h.congr rfl rfl
  enqueue _ h := h.congr rfl rfl
  releaseAsync {_ r _ _} _ _ h := ⟨r, .inl rfl, h.congr rfl rfl⟩
  release {_ r _} _ _ h := ⟨r, .inl rfl, h.congr rfl rfl⟩

/-- A property of resources that no request breaks: it does not depend on what the accounts say, and
the counters only grow. -/
structure Emulated.Lasting (P : Emulated → Prop) : Prop where
  accounts : ∀ e heap free live, P e → P { e with heap, free, live }
  reuse : ∀ e, P e → P { e with reuses := e.reuses + 1 }
  allocate : ∀ e, P e → P { e with allocations := e.allocations + 1 }
  pass : ∀ e, P e → P { e with reclaims := e.reclaims + 1 }

/-- What lasts is lost only when the resource is dropped. -/
theorem custody_lasting {P : Emulated → Prop} (c : Emulated.Lasting P) (r : ResourceId) :
    Custody (fun _ call => call ≠ .drop r) True fun m _ _ => m.Has r P where
  note _ _ h := h.congr rfl
  frame _ hr _ _ _ h := h.congr hr
  drain request s h :=
    (Machine.Has.drainStable fun e k b => c.accounts e _ (e.free.push k b) _).drain request s h
  reuse he hu h := by
    obtain ⟨⟨b', g⟩, -, hbe⟩ := Option.map_eq_some_iff.mp hu
    cases hbe
    exact h.setEmulated he fun hP => c.accounts _ _ g _ (c.reuse _ hP)
  refuse he hr h := by
    obtain ⟨rfl, -⟩ := Emulated.reserve?_eq_some hr
    exact h.setEmulated he (c.accounts _ _ _ _)
  fresh {_ _ _ _ heap _ _ _ _} he hr hb h := by
    obtain ⟨rfl, -⟩ := Emulated.reserve?_eq_some hr
    have hm := h.congr (Machine.resources_takeBlock hb)
    exact hm.setEmulated ((Machine.emulated?_takeBlock hb _).trans he) fun hP =>
      c.accounts _ heap _ _ (c.allocate _ hP)
  cache {m _ _ q k b e} he h := by
    have hset : (m.setEmulated q (e.cache k b)).Has r P :=
      h.setEmulated he (c.accounts e _ (e.free.push k b) _)
    exact hset.congr rfl
  beginPass he h := h.setEmulated he fun hP => c.accounts _ _ {} _ (c.pass _ hP)
  discard {m _ q x} hl hx h := by
    obtain ⟨e, he, hP⟩ := h
    have hne : ¬ q = r := fun hq => hl (congrArg Call.drop hq)
    refine ⟨e, ?_, hP⟩
    exact (Machine.emulated?_set_of_ne hne m none).trans he
  reorder _ h := h
  releaseKey {_ hand _ _ _ lists} h :=
    Custody.releaseKey_of_giveBack (I := fun m _ _ => m.Has r P)
      (fun _ _ hn => hn.congr rfl)
      (fun request s hn => (Machine.Has.drainStable fun e k b =>
        c.accounts e _ (e.free.push k b) _).drain request s hn)
      (fun hn => hn.giveBack fun e heap => c.accounts e heap _ _) hand lists h
  plainFresh hx _ hb h :=
    (h.congr (Machine.resources_takeBlock hb)).setHeap
      ((Machine.resource?_takeBlock hb _).trans hx) fun _ e => c.accounts e _ _ _
  plainReturn _ _ _ h := h.giveBack fun e heap => c.accounts e heap _ _
  lend h := h.congr rfl
  build {m blueprint} _ h := by
    have hcreate : ∀ (m : Machine) (x : Resource), m.Has r P → (m.create x).2.Has r P := by
      rintro m x ⟨e, he, hP⟩
      have hlt := Machine.lt_of_resource? (Machine.emulated?_eq_some.mp he)
      refine ⟨e, ?_, hP⟩
      rw [Machine.emulated?_create, if_neg (Nat.ne_of_lt hlt)]
      exact he
    cases blueprint with
    | emulated kind other => exact hcreate _ _ (h.congr rfl)
    | _ => exact hcreate _ _ h
  enqueue _ h := h.congr rfl
  releaseAsync {_ q _ _} _ _ h := ⟨q, .inl rfl, h.congr rfl⟩
  release {_ q _} _ _ h := ⟨q, .inl rfl, h.congr rfl⟩

/-- A resource stays as it was configured until it is dropped. -/
theorem custody_config (r : ResourceId) (config : Config) :
    Custody (fun _ c => c ≠ .drop r) True fun m _ _ => m.Has r fun e => e.config = config :=
  custody_lasting ⟨fun _ _ _ _ h => h, fun _ h => h, fun _ h => h, fun _ h => h⟩ r

/-! ## Release passes -/

namespace Machine

variable {m : Machine} {r : ResourceId} {n bytes : Nat}

theorem heap_giveBack (b : BlockId) (alignment : Nat)
    (h : m.Has r fun e => e.heap.allocated.current = n + bytes) :
    (m.giveBack r b bytes alignment).Has r fun e => e.heap.allocated.current = n := by
  obtain ⟨e, he, hheap⟩ := h
  have hx := emulated?_eq_some.mp he
  rcases m.giveBack_eq r b bytes alignment with ⟨hnone, -⟩ | ⟨x, hx', hg⟩
  · exact absurd (hnone.symm.trans hx) (by simp)
  · obtain rfl : .emulated e = x := Option.some.inj (hx.symm.trans hx')
    have hback : (m.emit (.returned b (Heap.layout bytes alignment))).emulated? r = some e := he
    refine ⟨{ e with heap := e.heap.giveBack bytes }, ?_, ?_⟩
    · rw [hg]
      exact emulated?_setEmulated_self hback _
    · change e.heap.allocated.current - bytes = n
      omega

theorem heap_releaseKey {k : BlockKey} {bs : List BlockId}
    (h : m.Has r fun e => e.heap.allocated.current = n + k.bytes * bs.length) :
    (m.releaseKey r k bs).Has r fun e => e.heap.allocated.current = n := by
  have hdrain : DrainStable fun m => m.Has r fun e =>
      e.heap.allocated.current = n + k.bytes * bs.length :=
    Has.drainStable fun _ _ _ he => he
  have hs := hdrain.synchronizeNoThrow k.stream h
  unfold releaseKey
  clear h hdrain
  generalize m.synchronizeNoThrow k.stream = m' at hs
  induction bs generalizing m' with
  | nil => exact hs
  | cons b bs ih =>
    apply ih
    apply heap_giveBack
    rw [List.length_cons, Nat.mul_succ, ← Nat.add_assoc] at hs
    exact hs

/-- A release pass takes the bytes of the blocks that it gives back off the account of the heap. -/
theorem heap_releaseLists {lists : KeyedList BlockKey (List BlockId)}
    (h : m.Has r fun e => e.heap.allocated.current = n + FreeLists.totalBytes lists) :
    (m.releaseLists r lists).Has r fun e => e.heap.allocated.current = n := by
  induction lists generalizing m with
  | nil => exact h
  | cons entry lists ih =>
    obtain ⟨k, bs⟩ := entry
    rw [releaseLists_cons]
    apply ih
    apply heap_releaseKey
    have htotal : FreeLists.totalBytes ((k, bs) :: lists) =
        k.bytes * bs.length + FreeLists.totalBytes lists := rfl
    rw [htotal, Nat.add_comm (k.bytes * bs.length), ← Nat.add_assoc] at h
    exact h

/-- After a release pass the heap accounts for as much as was in use before it. -/
theorem heap_releaseCached {e : Emulated} {lent : Nat} (he : m.emulated? r = some e)
    (hbefore : e.Balanced lent 0) :
    (m.releaseCached r).2.Has r fun f => f.heap.allocated.current = e.live.current := by
  have hbegun : (m.setEmulated r e.beginPass).Has r fun f =>
      f.heap.allocated.current = e.live.current + FreeLists.totalBytes e.free.lists := by
    refine ⟨e.beginPass, emulated?_setEmulated_self he _, ?_⟩
    have hheld := hbefore.held
    have hcounted := hbefore.sound.counted
    change e.heap.allocated.current = _
    omega
  rw [← m.totalBytes_arrange] at hbegun
  unfold releaseCached
  rw [he]
  exact (heap_releaseLists hbegun).congr rfl

/-- The blocks that were released during a release pass take the room of bytes that were in use
before it, so afterwards just those bytes are taken. -/
theorem footprint_releaseCached {e f : Emulated} {lent lent' : Nat} (he : m.emulated? r = some e)
    (hf : (m.releaseCached r).2.emulated? r = some f) (hbefore : e.Balanced lent 0)
    (hafter : f.Balanced lent' 0) : f.footprint = e.live.current := by
  have hheap := (heap_releaseCached he hbefore).of_some hf
  have hheld := hafter.held
  unfold Emulated.footprint
  omega

end Machine

/-! ## An allocator without a cache -/

/-- An allocator that gives every released block back at once. -/
structure Uncached where
  config : Config
  serves : Layout → Bool
  live : Nat := 0

namespace Uncached

/-- The alignment has to be supported and there has to be room; then it is up to the heap. -/
def request (x : Uncached) (bytes alignment : Nat) : Except Failure Unit :=
  if powerOfTwo alignment && decide (alignment ≤ x.config.maxAlignment) then
    if x.live + bytes ≤ x.config.capacity then
      (Heap.allocate {} {} x.serves bytes alignment).map fun _ => ()
    else .error (.allocation bytes alignment .outOfMemory)
  else .error (.allocation bytes alignment .unsupportedAlignment)

def allocate (x : Uncached) (bytes alignment : Nat) : Uncached :=
  match x.request bytes alignment with
  | .ok _ => { x with live := x.live + bytes }
  | .error _ => x

def deallocate (x : Uncached) (bytes : Nat) : Uncached := { x with live := x.live - bytes }

/-- What is answered if the allocator stands for a resource, and what becomes of it. Nothing has to
be done for a release pass. -/
def serve (x : Uncached) (r : ResourceId) : Call → Option (Except Failure Unit) × Uncached
  | .allocateAsync q k =>
    if q = r then (some (x.request k.bytes k.alignment), x.allocate k.bytes k.alignment)
    else (none, x)
  | .releaseAsync q y _ => (none, if q = r then x.deallocate y.bytes else x)
  | _ => (none, x)

/-- The answers to calls and the bytes in use after each. With each call stand the bytes that
operations released while it was served. -/
def observe (x : Uncached) (r : ResourceId) :
    List (Call × Nat) → List (Option (Except Failure Unit) × Nat)
  | [] => []
  | (c, nested) :: cs =>
    ((x.serve r c).1, ((x.serve r c).2.deallocate nested).live) ::
      ((x.serve r c).2.deallocate nested).observe r cs

end Uncached

/-! ## A machine next to it -/

/-- The bytes that a call itself releases to a resource. -/
def Call.gives (r : ResourceId) : Call → Nat
  | .releaseAsync q x _ => if q = r then x.bytes else 0
  | _ => 0

/-- A resource is used only by calls that do not synchronize first, and it is not dropped. -/
def Call.asynchronous (r : ResourceId) : Call → Bool
  | .allocate q .. | .release q _ | .drop q => q != r
  | _ => true

namespace Machine

def answer? (m : Machine) (r : ResourceId) : Call → Option (Except Failure Unit)
  | .allocateAsync q k => if q = r then some ((m.allocateAsync q k).1.map fun _ => ()) else none
  | _ => none

def liveBytes (m : Machine) (r : ResourceId) : Nat :=
  (m.emulated? r).elim 0 fun e => e.live.current

def releasedBytes (m : Machine) (r : ResourceId) : Nat := total (Loan.share r) (releases m.trace)

/-- The bytes that operations release to a resource while a call is served. -/
def nested (m : Machine) (r : ResourceId) (c : Call) : Nat :=
  (m.call c).releasedBytes r - m.releasedBytes r - c.gives r

/-- The answers to calls and the bytes in use after each. -/
def observe (m : Machine) (r : ResourceId) : List Call → List (Option (Except Failure Unit) × Nat)
  | [] => []
  | c :: cs => (m.answer? r c, (m.call c).liveBytes r) :: (m.call c).observe r cs

/-- The calls of a run with the bytes that operations release meanwhile. -/
def demands (m : Machine) (r : ResourceId) : List Call → List (Call × Nat)
  | [] => []
  | c :: cs => (c, m.nested r c) :: (m.call c).demands r cs

end Machine

/-! ## Answers -/

theorem Heap.map_allocate (h : Heap) (m : SystemMemory) (serves : Layout → Bool)
    (bytes alignment : Nat) :
    ((h.allocate m serves bytes alignment).map fun _ => ()) =
      (Heap.allocate {} {} serves bytes alignment).map fun _ => () := by
  unfold Heap.allocate SystemMemory.obtain?
  cases Heap.refusal? bytes alignment with
  | some reason => rfl
  | none =>
    dsimp only
    cases serves (layout bytes alignment) <;> rfl

theorem Serves.map_allocate {serves : Layout → Bool} {bytes alignment : Nat}
    (h : Serves serves bytes alignment) :
    ((Heap.allocate {} {} serves bytes alignment).map fun _ => ()) = .ok () := by
  obtain ⟨x, hx⟩ := (Heap.allocate_ok_iff {} {} serves bytes alignment).mpr h
  rw [hx]
  rfl

theorem Machine.map_takeReserved (m : Machine) (r : ResourceId) (e : Emulated) (k : BlockKey) :
    ((m.takeReserved r e k).1.map fun _ => ()) =
      (Heap.allocate {} {} (m.environment.serves m.trace) k.bytes k.alignment).map
        fun _ => () := by
  rw [← Heap.map_allocate e.heap m.memory]
  unfold takeReserved takeBlock
  cases e.heap.allocate m.memory (m.environment.serves m.trace) k.bytes k.alignment <;> rfl

theorem Machine.trace_takeReserved {m : Machine} {r : ResourceId} {e : Emulated} {k : BlockKey}
    (h : FairReleases (m.takeReserved r e k).2.trace) : FairReleases m.trace := by
  unfold takeReserved at h
  split at h
  · exact h
  · rename_i hb
    exact fairReleases_of_takeBlock hb h

theorem Emulated.fits_iff (e : Emulated) (bytes : Nat) :
    (∃ f, e.reserve? bytes = some f) ↔ e.footprint + bytes ≤ e.config.capacity := by
  unfold reserve? fits
  simp

namespace Uncached

variable {x : Uncached} {bytes alignment : Nat}

theorem request_of_unsupported {e : Emulated} (hc : e.config = x.config)
    (hs : ¬ e.supports alignment = true) :
    x.request bytes alignment = .error (.allocation bytes alignment .unsupportedAlignment) := by
  unfold Emulated.supports at hs
  rw [hc] at hs
  unfold request
  rw [if_neg hs]

theorem request_of_supported {e : Emulated} (hc : e.config = x.config)
    (hs : e.supports alignment = true) :
    x.request bytes alignment =
      if x.live + bytes ≤ x.config.capacity then
        (Heap.allocate {} {} x.serves bytes alignment).map fun _ => ()
      else .error (.allocation bytes alignment .outOfMemory) := by
  unfold Emulated.supports at hs
  rw [hc] at hs
  unfold request
  rw [if_pos hs]

end Uncached

/-- A machine has a resource that an allocator without a cache can stand for. -/
structure Mirrors (m : Machine) (r : ResourceId) (x : Uncached) : Prop where
  configured : m.Has r fun e => e.config = x.config
  live : m.Has r fun e => e.live.current = x.live
  solvent : m.Solvent [] []
  audited : m.Audited [] []
  supplied : m.Supplied x.serves
  orderly : m.Orderly

namespace Mirrors

variable {m : Machine} {r : ResourceId} {x : Uncached} {k : BlockKey} {e e' : Emulated}

/-- A cached block was had for such a request, and there is room for it. -/
theorem request_of_reuse (h : Mirrors m r x) (hf : FairReleases m.trace)
    (he : m.emulated? r = some e) (hs : e.supports k.alignment = true) {b : BlockId}
    (hu : e.reuse? k = some (b, e')) : x.request k.bytes k.alignment = .ok () := by
  have hbalanced := (h.solvent hf).balanced r e he
  have hroom := Emulated.room_of_reuse hbalanced.sound hbalanced.room hu
  have hlive := h.live.of_some he
  have hconfig := h.configured.of_some he
  obtain ⟨⟨b', g⟩, hpop, hbe⟩ := Option.map_eq_some_iff.mp hu
  cases hbe
  have hcached : (⟨r, k, b⟩ : Parcel) ∈ m.cached := by
    apply Machine.mem_cached.mpr
    refine ⟨e, he, ?_⟩
    exact (FreeLists.parcels_pop hbalanced.sound hpop r).mem_iff.mpr List.mem_cons_self
  have hserved := h.supplied.had _ ((h.audited hf).partitioned.keyed _ hcached)
  have hfits : x.live + k.bytes ≤ x.config.capacity := by
    rw [hlive, hconfig] at hroom
    exact hroom
  rw [Uncached.request_of_supported hconfig hs, if_pos hfits]
  exact Serves.map_allocate hserved

/-- The heap is asked if there is room. -/
theorem request_of_reserve (h : Mirrors m r x) (he : m.emulated? r = some e)
    (hs : e.supports k.alignment = true) {m' : Machine} (hv : m'.environment.Steady x.serves)
    {f f' : Emulated} (hc : f.config = x.config) (hr : f.reserve? k.bytes = some f')
    (hfootprint : x.live ≤ f.footprint) :
    ((m'.takeReserved r f' k).1.map fun _ => ()) = x.request k.bytes k.alignment := by
  have hfits := (Emulated.reserve?_eq_some hr).2
  rw [hc] at hfits
  rw [Uncached.request_of_supported (h.configured.of_some he) hs, if_pos (by omega),
    Machine.map_takeReserved, hv m'.trace]

theorem request_of_full (h : Mirrors m r x) (he : m.emulated? r = some e)
    (hs : e.supports k.alignment = true) (hfull : x.config.capacity < x.live + k.bytes) :
    x.request k.bytes k.alignment = .error (.allocation k.bytes k.alignment .outOfMemory) := by
  rw [Uncached.request_of_supported (h.configured.of_some he) hs, if_neg (by omega)]

theorem note (h : Mirrors m r x) {e : Event} (he : e.moves = false) (hw : e.works = false) :
    Mirrors (m.emit e) r x where
  configured := h.configured.congr rfl
  live := h.live.congr rfl
  solvent := h.solvent.note he
  audited := h.audited.note he
  supplied := h.supplied.note he
  orderly := h.orderly.note hw

theorem recalls (h : Mirrors m r x) : m.Recalls m.trace := ⟨h.orderly, List.suffix_refl _⟩

/-- After a release pass just the bytes count that were in use before it. -/
theorem releaseCached (h : Mirrors m r x) :
    (m.releaseCached r).2.environment.Steady x.serves ∧
      ∃ f, (m.releaseCached r).2.emulated? r = some f ∧ f.config = x.config ∧
        (FairReleases (m.releaseCached r).2.trace → f.footprint = x.live) := by
  obtain ⟨e, he, -⟩ := h.configured
  have hsupplied : (m.call (.releaseCached r)).Supplied x.serves :=
    (custody_supplied x.serves).call trivial h.supplied
  have hsolvent : (m.call (.releaseCached r)).Solvent [] [] :=
    custody_solvent.call trivial h.solvent
  have hrecalls : (m.call (.releaseCached r)).Recalls m.trace :=
    (custody_recalls m.trace).call trivial h.recalls
  have hconfigured : (m.call (.releaseCached r)).Has r fun e => e.config = x.config :=
    (custody_config r x.config).call Call.noConfusion h.configured
  obtain ⟨f, hf, hc⟩ := hconfigured
  refine ⟨hsupplied.steady, f, hf, hc, fun hfair => ?_⟩
  have hbefore := (h.solvent (hfair.of_suffix hrecalls.past)).balanced r e he
  have hafter := (hsolvent hfair).balanced r f hf
  exact (Machine.footprint_releaseCached he hf hbefore hafter).trans (h.live.of_some he)

theorem request_of_reclaim (h : Mirrors m r x) (he : m.emulated? r = some e)
    (hs : e.supports k.alignment = true) (hf : FairReleases (m.reclaimFor r e k).2.trace) :
    ((m.reclaimFor r e k).1.map fun _ => ()) = x.request k.bytes k.alignment := by
  have hnoted : Mirrors (m.log (.exhausted e.kind k.bytes)) r x := h.note rfl rfl
  obtain ⟨hsteady, f, hpassed, hc, hfootprint⟩ := hnoted.releaseCached
  unfold Machine.reclaimFor at hf ⊢
  dsimp only at hf ⊢
  rw [hpassed, Option.bind_some] at hf ⊢
  cases hr : f.reserve? k.bytes with
  | some f' =>
    rw [hr] at hf
    have hlive := hfootprint (Machine.trace_takeReserved hf)
    exact h.request_of_reserve he hs hsteady hc hr (Nat.le_of_eq hlive.symm)
  | none =>
    rw [hr] at hf
    have hlive := hfootprint hf
    have hfull := mt (f.fits_iff k.bytes).mpr (by simp [hr])
    rw [hc] at hfull
    rw [h.request_of_full he hs (by omega)]
    rfl

/-- A resource with a cache answers as one without. -/
theorem answer (h : Mirrors m r x) (hreclaim : x.config.reclaim = true)
    (hf : FairReleases (m.allocateAsync r k).2.trace) :
    ((m.allocateAsync r k).1.map fun _ => ()) = x.request k.bytes k.alignment := by
  obtain ⟨e, he, hconfig⟩ := h.configured
  have hlive := h.live.of_some he
  unfold Machine.allocateAsync at hf ⊢
  rw [he] at hf ⊢
  dsimp only at hf ⊢
  by_cases hs : e.supports k.alignment = true
  · rw [if_pos hs] at hf ⊢
    cases hu : e.reuse? k with
    | some reused =>
      obtain ⟨b, e'⟩ := reused
      rw [hu] at hf
      rw [h.request_of_reuse hf he hs hu]
      rfl
    | none =>
      rw [hu] at hf
      dsimp only at hf ⊢
      cases hr : e.reserve? k.bytes with
      | some e' =>
        apply h.request_of_reserve he hs h.supplied.steady hconfig hr
        unfold Emulated.footprint
        omega
      | none =>
        rw [hr] at hf
        dsimp only at hf ⊢
        rw [hconfig, if_pos hreclaim] at hf ⊢
        exact h.request_of_reclaim he hs hf
  · rw [if_neg hs, Uncached.request_of_unsupported hconfig hs]
    rfl

end Mirrors

/-! ## One call -/

namespace Machine

variable {m : Machine} {r : ResourceId} {c : Call}

theorem suffix_lend (q : ResourceId) (bytes alignment : Nat)
    (o : Except Failure BlockId × Machine) : o.2.trace <:+ (lend q bytes alignment o).trace := by
  rcases o with ⟨f | b, m⟩
  · exact List.suffix_refl _
  · exact List.suffix_cons _ _

/-- The bytes that a call is lent from a resource. -/
def granted (m : Machine) (r : ResourceId) : Call → Nat
  | .allocateAsync q k => if q = r ∧ (m.allocateAsync q k).1.isOk = true then k.bytes else 0
  | _ => 0

theorem lents_call {e : Emulated} (he : m.emulated? r = some e) (hc : c.asynchronous r = true) :
    total (Loan.share r) (lents (m.call c).trace) =
      total (Loan.share r) (lents m.trace) + m.granted r c := by
  cases c with
  | allocateAsync q k =>
    unfold call granted
    dsimp only
    cases hb : m.backend? q with
    | some backend =>
      have hserved := ((handling_lents (lents m.trace)).allocateBackend hb k rfl).snd id
      dsimp only
      rw [total_lents_lend, hserved]
      by_cases hq : q = r
      · subst hq
        obtain rfl := Option.some.inj (hb.symm.trans (backend?_eq_emulatedBackend he))
        rfl
      · simp [hq]
    | none =>
      have hq : q ≠ r := by
        rintro rfl
        exact absurd (hb.symm.trans (backend?_eq_emulatedBackend he)) (by simp)
      simp [hq]
  | allocate q bytes alignment =>
    have hq : q ≠ r := bne_iff_ne.mp hc
    have hserved := ((handling_lents (lents m.trace)).allocate q bytes alignment rfl).snd id
    unfold call granted
    rw [total_lents_lend, hserved]
    simp [hq]
  | _ => exact congrArg _ ((handling_lents (lents m.trace)).call rfl trivial rfl)

theorem Homeward.accepted (h : m.Homeward c) : m.Accepted c := by
  cases c with
  | releaseAsync q x s =>
    obtain rfl : q = x.resource := h
    exact m.accepts_self _
  | release q x =>
    obtain rfl : q = x.resource := h
    exact m.accepts_self _
  | _ => trivial

theorem releasedBytes_call {e : Emulated} (he : m.emulated? r = some e) (hl : m.Homeward c)
    (hpast : m.trace <:+ (m.call c).trace) :
    (m.call c).releasedBytes r = m.releasedBytes r + c.gives r + m.nested r c := by
  have hmono : m.releasedBytes r ≤ (m.call c).releasedBytes r := releases_mono r hpast
  have hgives : m.releasedBytes r + c.gives r ≤ (m.call c).releasedBytes r := by
    cases c with
    | releaseAsync q x s =>
      by_cases hq : q = r
      · obtain rfl : q = x.resource := hl
        subst hq
        have hreleases : releases (m.call (.releaseAsync x.resource x s)).trace =
            x :: releases m.trace := by
          rw [call_releaseAsync he]
          rfl
        unfold releasedBytes
        rw [hreleases, total_cons, Nat.add_comm]
        simp [Loan.share, Call.gives]
      · simpa [Call.gives, hq] using hmono
    | _ => exact hmono
  unfold nested
  omega

end Machine

namespace Uncached

variable {x : Uncached} {r : ResourceId} {c : Call}

theorem allocate_eq (x : Uncached) (bytes alignment : Nat) :
    x.allocate bytes alignment =
      { x with
        live := x.live + if (x.request bytes alignment).isOk = true then bytes else 0 } := by
  unfold allocate
  cases x.request bytes alignment <;> rfl

/-- Only the bytes in use change. -/
theorem serve_eq (x : Uncached) (r : ResourceId) (c : Call) :
    (x.serve r c).2 = { x with live := (x.serve r c).2.live } := by
  cases c with
  | allocateAsync q k =>
    by_cases hq : q = r <;> simp [serve, hq, allocate_eq]
  | releaseAsync q y s =>
    by_cases hq : q = r <;> simp [serve, hq, deallocate]
  | _ => rfl

end Uncached

namespace Mirrors

variable {m : Machine} {r : ResourceId} {x : Uncached} {c : Call}

theorem answer? (h : Mirrors m r x) (hreclaim : x.config.reclaim = true)
    (hf : FairReleases (m.call c).trace) : m.answer? r c = (x.serve r c).1 := by
  cases c with
  | allocateAsync q k =>
    unfold Machine.answer? Uncached.serve
    by_cases hq : q = r
    · subst hq
      obtain ⟨e, he, -⟩ := h.configured
      have hfair : FairReleases (m.allocateAsync q k).2.trace := by
        rw [Machine.call_allocateAsync he] at hf
        exact hf.of_suffix (Machine.suffix_lend q k.bytes k.alignment _)
      dsimp only
      rw [if_pos rfl, if_pos rfl, h.answer hreclaim hfair]
    · dsimp only
      rw [if_neg hq, if_neg hq]
  | _ => rfl

theorem live_serve (h : Mirrors m r x) (hreclaim : x.config.reclaim = true)
    (hf : FairReleases (m.call c).trace) :
    (x.serve r c).2.live = x.live + m.granted r c - c.gives r := by
  have hanswer := h.answer? hreclaim hf
  cases c with
  | allocateAsync q k =>
    by_cases hq : q = r
    · simp only [Machine.answer?, Uncached.serve, hq, if_true, Option.some.injEq] at hanswer
      simp only [Uncached.serve, Machine.granted, Call.gives, hq, if_true, true_and,
        Uncached.allocate_eq, ← hanswer, Nat.sub_zero]
      cases (m.allocateAsync r k).1 <;> rfl
    · simp [Uncached.serve, Machine.granted, Call.gives, hq]
  | releaseAsync q y s =>
    by_cases hq : q = r <;>
      simp [Uncached.serve, Machine.granted, Call.gives, Uncached.deallocate, hq]
  | _ => rfl

/-- Both get on in step. -/
theorem call (h : Mirrors m r x) (hreclaim : x.config.reclaim = true) (hl : m.Homeward c)
    (hc : c.asynchronous r = true) (hf : FairReleases (m.call c).trace) :
    Mirrors (m.call c) r ((x.serve r c).2.deallocate (m.nested r c)) := by
  have hserve := h.live_serve hreclaim hf
  rw [x.serve_eq r c]
  have hstays : c ≠ .drop r := by
    rintro rfl
    simp [Call.asynchronous] at hc
  obtain ⟨e, he, -⟩ := h.configured
  have hrecalls : (m.call c).Recalls m.trace := (custody_recalls m.trace).call trivial h.recalls
  have hconfigured : (m.call c).Has r fun e => e.config = x.config :=
    (custody_config r x.config).call hstays h.configured
  have hsolvent : (m.call c).Solvent [] [] := custody_solvent.call hl h.solvent
  refine ⟨hconfigured, ?_, hsolvent, custody_audited.call hl.accepted h.audited,
    (custody_supplied x.serves).call trivial h.supplied, hrecalls.orderly⟩
  obtain ⟨e', he', -⟩ := hconfigured
  refine ⟨e', he', ?_⟩
  -- what was lent is on loan or was released, before the call and after it
  have hfair := hf.of_suffix hrecalls.past
  have hlive := h.live.of_some he
  have hbefore := ((h.solvent hfair).balanced r e he).lent
  have hafter := ((hsolvent hf).balanced r e' he').lent
  have hlents := Machine.lents_call he hc
  have hreleased := Machine.releasedBytes_call he hl hrecalls.past
  have hshare := share_onLoan r hfair
  have hshare' := share_onLoan r hf
  unfold Machine.out at hbefore hafter
  unfold Machine.releasedBytes at hreleased
  rw [List.map_nil, List.append_nil] at hbefore hafter
  unfold Uncached.deallocate
  dsimp only
  omega

end Mirrors

/-! ## Runs -/

theorem Mirrors.observe {m : Machine} {r : ResourceId} {x : Uncached} {cs : List Call}
    (h : Mirrors m r x) (hreclaim : x.config.reclaim = true) (ho : m.Obeys Machine.Homeward cs)
    (hc : ∀ c ∈ cs, c.asynchronous r = true) (hf : FairReleases (m.run cs).trace) :
    m.observe r cs = x.observe r (m.demands r cs) := by
  induction cs generalizing m x with
  | nil => rfl
  | cons c cs ih =>
    have hrecalls : (m.call c).Recalls (m.call c).trace :=
      ⟨((custody_recalls m.trace).call trivial h.recalls).orderly, List.suffix_refl _⟩
    have hfair : FairReleases (m.call c).trace := hf.of_suffix (hrecalls.run cs).past
    have hnext := h.call hreclaim ho.1 (hc c List.mem_cons_self) hfair
    have hanswer := h.answer? hreclaim hfair
    have hlive : (m.call c).liveBytes r = ((x.serve r c).2.deallocate (m.nested r c)).live := by
      obtain ⟨e, he, hlive⟩ := hnext.live
      unfold Machine.liveBytes
      rw [he]
      exact hlive
    have hconfig : ((x.serve r c).2.deallocate (m.nested r c)).config.reclaim = true := by
      rw [x.serve_eq]
      exact hreclaim
    unfold Machine.observe Machine.demands Uncached.observe
    rw [hanswer, hlive, ih hnext hconfig ho.2 (fun d hd => hc d (List.mem_cons_of_mem c hd)) hf]

namespace Machine

end Machine

end StreamMemory
