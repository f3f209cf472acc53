import StreamMemory.Proofs.Sharing
import StreamMemory.Proofs.StreamOrder

/-!
# Which streams are registered

Between calls a queue is registered just as long as operations wait in it. While it is drained, an
empty queue may be registered, since the drain holds a handle to it and takes what is appended
meanwhile. At its end the drain finds that nobody else holds the queue, and the queue is forgotten.
So every handle belongs to a drain in progress (`Needed`), and between calls there is none.
-/

set_option autoImplicit false

namespace StreamMemory

/-! ## Handles -/

namespace Registry

variable {α : Type}

theorem handles_push (r : Registry α) (q : QueueId) (a : α) (p : QueueId) :
    (r.push q a).handles p = r.handles p := by
  rw [push, handles_modify_items]
  exact fun _ => rfl

theorem handles_queue {r : Registry α} (h : r.WellFormed) (s : StreamId) (q : QueueId) :
    (r.queue s).2.handles q = r.handles q + if q = (r.queue s).1 then 1 else 0 := by
  unfold queue
  split
  · rename_i p hp
    exact r.handles_hold (h.lt_of_find? hp) q
  · exact r.handles_create s q

/-- Whoever enqueues gives the handle to the queue up again. -/
theorem handles_enqueue {r : Registry α} (h : r.WellFormed) (s : StreamId) (a : α) (q : QueueId) :
    (r.enqueue s a).handles q = r.handles q := by
  unfold enqueue
  rw [handles_release, handles_push, handles_queue h, Nat.add_sub_cancel]

/-- To take a handle and give it up changes nothing. -/
theorem release_hold (r : Registry α) (q : QueueId) : (r.hold q).release q = r := by
  have hqueues : (r.queues.modify q fun x => { x with handles := x.handles + 1 }).modify q
      (fun x => { x with handles := x.handles - 1 }) = r.queues := by
    apply List.ext_getElem?
    intro i
    rw [List.getElem?_modify, List.getElem?_modify]
    cases r.queues[i]? with
    | none => rfl
    | some x => by_cases hi : q = i <;> simp [hi]
  unfold release hold modify
  dsimp only
  rw [hqueues]

end Registry

theorem Machine.streams_closeDrain (m : Machine) (f : Frame) :
    (m.closeDrain f).streams =
      if f.detached = true then m.streams.release f.queue
      else (m.streams.prune f.stream f.queue).release f.queue := by
  unfold Machine.closeDrain Frame.detached
  split
  · rfl
  · dsimp only
    split <;> rfl

/-! ## The invariant -/

/-- Every handle is that of a drain in progress, and a queue in which nothing waits is registered
only while a drain is busy with it. -/
structure Needed (r : Registry Operation) (frames : List Frame) : Prop where
  handles : ∀ q, r.handles q = (frames.map Frame.queue).count q
  used : ∀ s q, r.find? s = some q → r.waiting s ≠ [] ∨ q ∈ frames.map Frame.queue

namespace Needed

variable {r r' : Registry Operation} {trace : List Event} {f : Frame} {fs : List Frame}

theorem start : Needed {} [] :=
  ⟨fun _ => rfl, fun _ _ h => by cases h⟩

theorem enqueue (h : Needed r fs) (hr : r.WellFormed) (s : StreamId) (op : Operation) :
    Needed (r.enqueue s op) fs := by
  refine ⟨fun q => (Registry.handles_enqueue hr s op q).trans (h.handles q), ?_⟩
  intro t q hq
  rw [hr.waiting_enqueue]
  rw [Registry.find?_enqueue] at hq
  split
  · exact .inl (by simp)
  · rename_i ht
    rw [if_neg ht] at hq
    exact h.used t q hq

theorem unregister (h : Needed r fs) (s : StreamId) : Needed (r.unregister s) fs := by
  refine ⟨h.handles, ?_⟩
  intro t q hq
  rw [Registry.find?_unregister] at hq
  rw [Registry.waiting_unregister]
  split at hq
  · cases hq
  · rename_i ht
    rw [if_neg fun e => ht e.symm]
    exact h.used t q hq

theorem hold (h : Needed r fs) (hf : f.queue < r.queues.length) :
    Needed (r.hold f.queue) (f :: fs) := by
  constructor
  · intro q
    rw [r.handles_hold hf, h.handles, List.map_cons, List.count_cons]
    by_cases hq : q = f.queue
    · subst hq
      simp
    · have hq' : ¬ f.queue = q := fun e => hq e.symm
      simp [hq, hq']
  · intro s q hq
    rw [Registry.waiting_hold]
    exact (h.used s q hq).imp_right (List.mem_cons_of_mem _)

theorem openDrain {m m' : Machine} {request : DrainRequest} {s : StreamId}
    (h : Needed m.streams fs) (hr : m.streams.WellFormed)
    (ho : m.openDrain request s = some (f, m')) : Needed m'.streams (f :: fs) := by
  obtain ⟨q, hq, rfl, rfl⟩ := Machine.openDrain_eq_some ho
  have hlt := hr.lt_of_find? hq
  dsimp only
  split
  · exact hold (f := { request, stream := s, queue := q }) (h.unregister s) hlt
  · exact hold (f := { request, stream := s, queue := q }) h hlt

/-- A drain gives its handle up once its queue is not registered or not its own any more. -/
theorem release (h : Needed r (f :: fs)) (hq : ∀ s, r.find? s ≠ some f.queue) :
    Needed (r.release f.queue) fs := by
  constructor
  · intro q
    rw [Registry.handles_release, h.handles, List.map_cons, List.count_cons]
    by_cases hf : q = f.queue
    · subst hf
      simp
    · have hf' : ¬ f.queue = q := fun e => hf e.symm
      simp [hf, hf']
  · intro s q hs
    rw [Registry.waiting_release]
    rcases h.used s q hs with hw | hm
    · exact .inl hw
    · rcases List.mem_cons.mp hm with rfl | hm
      · exact absurd hs (hq s)
      · exact .inr hm

theorem pop (h : Needed r (f :: fs)) (hr : r.WellFormed) {op : Operation}
    (hp : r.pop f.queue = some (op, r')) : Needed r' (f :: fs) := by
  have hhandles : ∀ q, r'.handles q = r.handles q := by
    unfold Registry.pop at hp
    split at hp
    · cases hp
    · cases hp
      exact r.handles_modify_items f.queue fun _ => rfl
  obtain ⟨-, -, hfind, -⟩ := r.items_pop hp
  refine ⟨fun q => (hhandles q).trans (h.handles q), ?_⟩
  intro s q hq
  rw [hfind] at hq
  by_cases hf : q = f.queue
  · exact .inr (hf ▸ List.mem_cons_self)
  · have hw := hr.waiting_pop hp s
    rw [hq, if_neg fun e => hf (Option.some.inj e)] at hw
    rw [← hw]
    exact h.used s q hq

/-- A drain that found its queue empty is the only one to hold it, so the queue can go. -/
theorem prunable (h : Needed r (f :: fs)) (ho : Orderly r trace (f :: fs))
    (hp : r.pop f.queue = none) (hd : f.detached = false) :
    r.prunable f.stream f.queue = true := by
  have hfind : r.find? f.stream = some f.queue := by
    have ha := (ho.anchored f List.mem_cons_self).2
    rwa [hd] at ha
  have hcount : (fs.map Frame.queue).count f.queue = 0 :=
    List.count_eq_zero.mpr (List.nodup_cons.mp ho.queues).1
  have howners : r.owners f.queue = 2 := by
    rw [(ho.registry.owners_eq f.queue).1 ⟨f.stream, hfind⟩, h.handles, List.map_cons,
      List.count_cons_self, hcount]
  unfold Registry.prunable
  rw [hfind, howners, (r.pop_eq_none_iff f.queue).mp hp]
  simp

theorem find?_closeDrain {m : Machine} (h : Needed m.streams (f :: fs))
    (ho : Orderly m.streams trace (f :: fs)) (hp : m.streams.pop f.queue = none)
    (hd : f.detached = false) : (m.closeDrain f).streams.find? f.stream = none := by
  rw [m.streams_closeDrain, hd, Registry.prune, if_pos (h.prunable ho hp hd)]
  exact (Registry.find?_unregister _ _ _).trans (if_pos rfl)

theorem closeDrain {m : Machine} (h : Needed m.streams (f :: fs))
    (ho : Orderly m.streams trace (f :: fs)) (hp : m.streams.pop f.queue = none) :
    Needed (m.closeDrain f).streams fs := by
  have ha := (ho.anchored f List.mem_cons_self).2
  rw [m.streams_closeDrain]
  cases hd : f.detached with
  | true =>
    rw [if_pos hd] at ha
    exact h.release ha
  | false =>
    rw [hd] at ha
    rw [Registry.prune, if_pos (h.prunable ho hp hd)]
    apply (h.unregister f.stream).release
    intro s hs
    rw [Registry.find?_unregister] at hs
    split at hs
    · cases hs
    · rename_i hne
      exact hne (ho.registry.find?_inj ha hs)

end Needed

/-! ## Drains -/

namespace Run

/-- The drain that was opened first, which is the last one to be over. -/
def root (run : Run) : Frame := run.outer.getLastD run.frame

/-- Whatever else happens in a drain, it stays a drain of the stream that it was opened for. -/
def Serves (request : DrainRequest) (s : StreamId) (run : Run) : Prop :=
  run.root.request = request ∧ run.root.stream = s

variable {run next : Run} {request : DrainRequest} {s : StreamId}

theorem Serves.frame (h : run.Serves request s) (m : Machine) (rest : Operation) (failed : Nat) :
    Serves request s
      { run with machine := m, frame := { run.frame with rest, failed } } := by
  unfold Serves root at h ⊢
  dsimp only
  cases hr : run.outer with
  | nil =>
    rw [hr] at h
    exact h
  | cons g gs =>
    rw [hr, List.getLastD_cons] at h
    rw [List.getLastD_cons]
    exact h

theorem Serves.nest (h : run.Serves request s) (other : DrainRequest) (t : StreamId) :
    (run.nest other t).Serves request s := by
  unfold Run.nest
  dsimp only
  split
  · exact h
  · split
    · unfold Serves root
      rw [List.getLastD_cons]
      exact h
    · exact h

theorem Serves.step (h : run.Serves request s) (hs : run.step = .inr next) :
    next.Serves request s := by
  rcases Run.step_eq_inr hs with
    ⟨a, rest, -, rfl⟩ | ⟨op, streams, -, rfl⟩ | ⟨f, outer, -, houter, rfl⟩
  · have hr : Serves request s { run with frame := { run.frame with rest } } := h.frame _ rest _
    cases a with
    | panic => exact h.frame _ [] _
    | synchronize t => exact hr.nest .synchronize t
    | destroy t => exact hr.nest .destroy t
    | _ => exact hr
  · exact h.frame _ op _
  · unfold Serves root at h ⊢
    rw [houter, List.getLastD_cons] at h
    exact h

/-- The frames of a run are orderly, and every handle is theirs. -/
structure Tidy (run : Run) : Prop where
  orderly : run.Orderly
  needed : Needed run.machine.streams (run.frame :: run.outer)

theorem Tidy.nest (h : run.Tidy) (other : DrainRequest) (t : StreamId) : (run.nest other t).Tidy := by
  refine ⟨h.orderly.nest other t, ?_⟩
  unfold Run.nest
  dsimp only
  split
  · exact h.needed
  · split
    · rename_i f m ho
      have ha : Needed (run.machine.report run.frame.stream other.announcement).streams
          (run.frame :: run.outer) := h.needed
      exact ha.openDrain h.orderly.registry ho
    · exact h.needed

theorem Tidy.perform (h : run.Tidy) (a : Act) : (run.perform a).Tidy := by
  refine ⟨h.orderly.perform a, ?_⟩
  cases a with
  | enqueue t acts => exact h.needed.enqueue h.orderly.registry t acts
  | panic => exact ⟨h.needed.handles, h.needed.used⟩
  | synchronize t => exact (h.nest .synchronize t).needed
  | destroy t => exact (h.nest .destroy t).needed
  | free r b k =>
    have hstreams := streams_freeBlock run.machine run.frame.stream r b k
    unfold Run.perform
    dsimp only
    rw [hstreams]
    exact h.needed
  | _ => exact h.needed

theorem Tidy.step (h : run.Tidy) (hs : run.step = .inr next) : next.Tidy := by
  refine ⟨h.orderly.step hs, ?_⟩
  rcases Run.step_eq_inr hs with
    ⟨a, rest, hrest, rfl⟩ | ⟨op, streams, hpop, rfl⟩ | ⟨f, outer, hpop, houter, rfl⟩
  · have hr : Run.Tidy { run with frame := { run.frame with rest } } :=
      ⟨h.orderly.frame rest _, h.needed.handles, h.needed.used⟩
    exact (hr.perform a).needed
  · have hpopped := h.needed.pop h.orderly.registry hpop
    exact ⟨hpopped.handles, hpopped.used⟩
  · have hclosed := h.needed.closeDrain h.orderly hpop
    rwa [houter] at hclosed

theorem Tidy.last (h : run.Tidy) {done : SyncResult × Machine} (hs : run.step = .inl done) :
    Needed done.2.streams [] := by
  obtain ⟨hpop, houter, rfl⟩ := Run.step_eq_inl hs
  have hclosed := h.needed.closeDrain h.orderly hpop
  rwa [houter] at hclosed

end Run

namespace Machine

/-- Between calls nobody holds a queue, and a queue is registered only if something waits in it. -/
structure Tidy (m : Machine) : Prop where
  orderly : m.Orderly
  needed : Needed m.streams []

/-- Asks for the length of a queue, through a handle that is given up at once. -/
def query (m : Machine) (s : StreamId) : Nat × Machine :=
  match m.streams.existing s with
  | some (q, r) => ((r.items q).length, { m with streams := r.release q })
  | none => (0, m)

theorem query_eq (m : Machine) (s : StreamId) : m.query s = (m.pending s, m) := by
  unfold query pending Registry.existing Registry.waiting
  cases m.streams.find? s with
  | none => rfl
  | some q =>
    dsimp only [Option.map_some]
    rw [Registry.items_hold, Registry.release_hold]

variable {m : Machine}

theorem Tidy.find?_isSome_iff (h : m.Tidy) (s : StreamId) :
    (m.streams.find? s).isSome = true ↔ 0 < m.pending s := by
  unfold pending
  rw [List.length_pos_iff]
  constructor
  · intro hs
    obtain ⟨q, hq⟩ := Option.isSome_iff_exists.mp hs
    exact (h.needed.used s q hq).resolve_right (by simp)
  · intro hw
    apply Option.isSome_iff_ne_none.mpr
    intro hs
    exact hw (by simp [Registry.waiting, hs])

theorem Tidy.drain (h : m.Tidy) (request : DrainRequest) (s : StreamId) :
    (m.drain request s).2.Tidy := by
  refine ⟨h.orderly.drain request s, ?_⟩
  apply drain_induction (P := Run.Tidy) (Q := fun m => Needed m.streams [])
  · exact fun _ => h.needed
  · exact fun frame machine ho =>
      ⟨h.orderly.opened ho, h.needed.openDrain h.orderly.registry ho⟩
  · exact fun _ _ hr hs => hr.step hs
  · exact fun _ _ hr hs => hr.last hs

/-- A stream that was synchronized is not registered any more, whether its operations failed or
not. -/
theorem Tidy.find?_synchronize (h : m.Tidy) (s : StreamId) :
    (m.synchronize s).2.streams.find? s = none := by
  apply drain_induction (P := fun run => run.Tidy ∧ run.Serves .synchronize s)
    (Q := fun m => m.streams.find? s = none)
  · exact fun hidle => openDrain_eq_none hidle
  · intro frame machine ho
    refine ⟨⟨h.orderly.opened ho, h.needed.openDrain h.orderly.registry ho⟩, ?_⟩
    obtain ⟨q, -, rfl, -⟩ := openDrain_eq_some ho
    exact ⟨rfl, rfl⟩
  · exact fun _ _ hr hs => ⟨hr.1.step hs, hr.2.step hs⟩
  · rintro run done ⟨hr, hserves⟩ hs
    obtain ⟨hpop, houter, rfl⟩ := Run.step_eq_inl hs
    unfold Run.Serves Run.root at hserves
    rw [houter] at hserves
    obtain ⟨hrequest, hstream⟩ := hserves
    have hd : run.frame.detached = false := by
      unfold Frame.detached
      rw [show run.frame.request = .synchronize from hrequest]
      rfl
    have hnone := hr.needed.find?_closeDrain hr.orderly hpop hd
    rwa [show run.frame.stream = s from hstream] at hnone

theorem streams_synchronizeNoThrow (m : Machine) (s : StreamId) :
    (m.synchronizeNoThrow s).streams = (m.synchronize s).2.streams := by
  rcases m.synchronizeNoThrow_eq s with e | ⟨f, e⟩
  · rw [e]
  · rw [e]
    rfl

theorem streams_releaseKey (m : Machine) (r : ResourceId) (k : BlockKey) (bs : List BlockId) :
    (m.releaseKey r k bs).streams = (m.synchronize k.stream).2.streams :=
  releaseKey_induction (P := fun n => n.streams = (m.synchronize k.stream).2.streams)
    (fun n b hn => (n.streams_giveBack r b k.bytes k.alignment).trans hn) bs
    (m.streams_synchronizeNoThrow k.stream)

theorem streams_takeBlock {m m' : Machine} {r : ResourceId} {heap heap' : Heap}
    {bytes alignment : Nat} {b : BlockId}
    (hb : m.takeBlock r heap bytes alignment = .ok (b, heap', m')) : m'.streams = m.streams := by
  obtain ⟨-, -, rfl⟩ := takeBlock_eq_ok hb
  rfl

end Machine

/-! ## Runs -/

/-- Calls do nothing to streams but enqueue and drain. -/
theorem Custody.andStreams {law : Machine → Call → Prop} {exchange : Prop}
    {I : Machine → List Parcel → List Parcel → Prop} (c : Custody law exchange I)
    {P : Registry Operation → Prop}
    (enqueue : ∀ {m s op}, I m [] [] → P m.streams → P (m.enqueue s op).streams)
    (drain : ∀ {m hand pass} request s, I m hand pass → P m.streams →
      P (m.drain request s).2.streams) :
    Custody law exchange fun m hand pass => I m hand pass ∧ P m.streams where
  note he hw h := ⟨c.note he hw h.1, h.2⟩
  frame hs hr ht hl hv h := ⟨c.frame hs hr ht hl hv h.1, by rw [hs]; exact h.2⟩
  drain request s h := ⟨c.drain request s h.1, drain request s h.1 h.2⟩
  reuse he hu h := ⟨c.reuse he hu h.1, h.2⟩
  refuse he hr h := ⟨c.refuse he hr h.1, h.2⟩
  fresh he hr hb h := ⟨c.fresh he hr hb h.1, by
    have ht := h.2
    rwa [← Machine.streams_takeBlock hb] at ht⟩
  cache he h := ⟨c.cache he h.1, h.2⟩
  beginPass he h := ⟨c.beginPass he h.1, h.2⟩
  discard hl hx h := ⟨c.discard hl hx h.1, h.2⟩
  reorder hp h := ⟨c.reorder hp h.1, h.2⟩
  releaseKey {m hand r k bs lists} h := by
    refine ⟨c.releaseKey h.1, ?_⟩
    rw [m.streams_releaseKey]
    exact drain .synchronize k.stream h.1 h.2
  plainFresh hx hn hb h := ⟨c.plainFresh hx hn hb h.1, by
    have ht := h.2
    rwa [← Machine.streams_takeBlock hb] at ht⟩
  plainReturn {m _ _ r _ p} hx hn hp h := by
    refine ⟨c.plainReturn hx hn hp h.1, ?_⟩
    rw [m.streams_giveBack]
    exact h.2
  lend h := ⟨c.lend h.1, h.2⟩
  build {m blueprint} hl h := ⟨c.build hl h.1, by cases blueprint <;> exact h.2⟩
  enqueue hl h := ⟨c.enqueue hl h.1, enqueue h.1 h.2⟩
  releaseAsync hl hb h := by
    obtain ⟨q, hq, hi⟩ := c.releaseAsync hl hb h.1
    exact ⟨q, hq, hi, h.2⟩
  release hl hb h := by
    obtain ⟨q, hq, hi⟩ := c.release hl hb h.1
    exact ⟨q, hq, hi, h.2⟩

theorem custody_needed :
    Custody (fun _ _ => True) True fun m _ _ => m.Recalls [] ∧ Needed m.streams [] :=
  Custody.andStreams (P := fun r => Needed r []) (custody_recalls [])
    (fun h hn => hn.enqueue h.orderly.registry _ _)
    (fun request s h hn => (Machine.Tidy.drain ⟨h.orderly, hn⟩ request s).needed)

namespace Machine

theorem tidy_run (env : Environment) (cs : List Call) : ((start env).run cs).Tidy := by
  have h := custody_needed.run (obeys_any (start env) cs) ⟨recalls_start env, Needed.start⟩
  exact ⟨h.1.orderly, h.2⟩

/-- Between calls a stream is registered if and only if operations wait on it. In particular it is
not registered once it was synchronized, and to ask for what waits on it does not register it. -/
theorem registered_iff_pending (env : Environment) (cs : List Call) (s : StreamId) :
    ((((start env).run cs).streams.find? s).isSome = true ↔
        0 < ((start env).run cs).pending s) ∧
      (((start env).run cs).synchronize s).2.streams.find? s = none ∧
      (((start env).run cs).synchronizeNoThrow s).streams.find? s = none ∧
      ((start env).run cs).query s = (((start env).run cs).pending s, (start env).run cs) := by
  have h := tidy_run env cs
  refine ⟨h.find?_isSome_iff s, h.find?_synchronize s, ?_, query_eq _ s⟩
  rw [streams_synchronizeNoThrow]
  exact h.find?_synchronize s

end Machine

end StreamMemory
