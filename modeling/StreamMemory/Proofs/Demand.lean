import StreamMemory.Proofs.HighWater
import StreamMemory.Proofs.Requests
import Mathlib.Algebra.BigOperators.Group.Finset.Piecewise

/-!
# Demand

The system is asked for a block only if no block with the same key is cached. So as long as no
release pass runs, and every block is released on the stream on which it was requested, a resource
obtains as many blocks for a key as were ever held at once; those that are not held are cached.
-/

set_option autoImplicit false

namespace StreamMemory

/-! ## Clients of one resource -/

/-- What a client wants of a resource. A block is released on the stream on which it was
requested. -/
inductive Want where
  | take (key : BlockKey)
  | give (key : BlockKey) (block : BlockId)
  deriving DecidableEq, Repr

namespace Want

def key : Want → BlockKey
  | take k | give k _ => k

def call (r : ResourceId) : Want → Call
  | take k => .allocateAsync r k
  | give k b => .releaseAsync r ⟨b, r, k.bytes, k.alignment⟩ k.stream

end Want

/-- A machine with a client of one of its resources, and the blocks that the client holds. -/
structure Tenant where
  machine : Machine
  held : List (BlockKey × BlockId) := []

namespace Tenant

/-- The blocks with a key that are held. -/
def count (t : Tenant) (k : BlockKey) : Nat := t.held.countP fun x => x.1 = k

variable (r : ResourceId)

/-- The block that is handed out, if a block is asked for and the request is served. -/
def granted? (t : Tenant) : Want → Option BlockId
  | .take k => (t.machine.allocateAsync r k).1.toOption
  | .give .. => none

def step (t : Tenant) (w : Want) : Tenant where
  machine := t.machine.call (w.call r)
  held :=
    match w with
    | .take k => ((t.granted? r w).map (k, ·)).toList ++ t.held
    | .give k b => t.held.erase (k, b)

def run (t : Tenant) (ws : List Want) : Tenant := ws.foldl (step r) t

/-- Only what is held is released. -/
def Fair (t : Tenant) : Want → Prop
  | .take _ => True
  | .give k b => (k, b) ∈ t.held

instance decidableFair (t : Tenant) : (w : Want) → Decidable (t.Fair w)
  | .take _ => .isTrue trivial
  | .give k b => inferInstanceAs (Decidable ((k, b) ∈ t.held))

/-- Every step of a run is fair. -/
def FairRun (t : Tenant) : List Want → Prop
  | [] => True
  | w :: ws => t.Fair w ∧ (t.step r w).FairRun ws

instance FairRun.decidable : (t : Tenant) → (ws : List Want) → Decidable (t.FairRun r ws)
  | _, [] => .isTrue trivial
  | t, w :: ws =>
    have := FairRun.decidable (t.step r w) ws
    inferInstanceAs (Decidable (t.Fair w ∧ (t.step r w).FairRun r ws))

/-! ## Figures of a run -/

/-- The blocks that a step obtains from the system. -/
def fetches (t : Tenant) (w : Want) : Nat :=
  (obtained (t.step r w).machine.trace).length - (obtained t.machine.trace).length

/-- The requests that a step serves. -/
def grants (t : Tenant) (w : Want) : Nat := (t.granted? r w).toList.length

/-- Adds up a figure over the steps of a run. -/
def tally (f : Tenant → Want → Nat) (t : Tenant) : List Want → Nat
  | [] => 0
  | w :: ws => f t w + tally f (t.step r w) ws

/-- The blocks obtained from the system by the steps of a run that concern a key. -/
def fetched (t : Tenant) (ws : List Want) (k : BlockKey) : Nat :=
  tally r (fun t w => if w.key = k then t.fetches r w else 0) t ws

/-- How many blocks with a key are held, at all times of a run. -/
def counts (t : Tenant) (k : BlockKey) : List Want → List Nat
  | [] => [t.count k]
  | w :: ws => t.count k :: counts (t.step r w) k ws

/-- The largest number of blocks with a key that are ever held at once. -/
def peak (t : Tenant) (ws : List Want) (k : BlockKey) : Nat := highest (t.counts r k ws)

variable {r : ResourceId} {t : Tenant} {w : Want} {e e' : Emulated}

/-- A figure can be added up key by key. -/
theorem sum_tally (f : Tenant → Want → Nat) (t : Tenant) {ws : List Want} {ks : Finset BlockKey}
    (h : ∀ w ∈ ws, w.key ∈ ks) :
    ∑ k ∈ ks, tally r (fun t w => if w.key = k then f t w else 0) t ws = tally r f t ws := by
  induction ws generalizing t with
  | nil => exact Finset.sum_const_zero
  | cons w ws ih =>
    rw [List.forall_mem_cons] at h
    simp only [tally, Finset.sum_add_distrib, Finset.sum_ite_eq, if_pos h.1]
    rw [ih _ h.2]

end Tenant

/-! ## Release passes are counted -/

theorem Emulated.Lasting.quiet {P : Emulated → Prop} (c : Emulated.Lasting P) :
    Emulated.Quiet P where
  heap e heap := c.accounts e heap e.free e.live
  cache e k b := c.accounts e e.heap (e.free.push k b) (e.live.sub k.bytes)
  beginPass e h := c.accounts _ e.heap {} e.live (c.pass e h)

theorem lasting_reclaims (n : Nat) : Emulated.Lasting fun e => n ≤ e.reclaims where
  accounts _ _ _ _ h := h
  reuse _ h := h
  allocate _ h := h
  pass _ h := Nat.le_succ_of_le h

theorem Machine.has_takeReserved {P : Emulated → Prop} (c : Emulated.Lasting P) {m : Machine}
    {r : ResourceId} {e e' : Emulated} {k : BlockKey} (he : m.emulated? r = some e)
    (hr : e.reserve? k.bytes = some e') (h : m.Has r P) : (m.takeReserved r e' k).2.Has r P := by
  have hserved : Handling.Served (fun m _ _ => m.Has r P) r k [] (m.takeReserved r e' k) :=
    (custody_lasting c r).takeReserved he hr h
  exact hserved.snd id

theorem Machine.has_reclaimFor {m : Machine} {r : ResourceId} {e : Emulated}
    (he : m.emulated? r = some e) (k : BlockKey) :
    (m.reclaimFor r e k).2.Has r fun f => e.reclaims + 1 ≤ f.reclaims := by
  have hlasting := lasting_reclaims (e.reclaims + 1)
  have hpassed : ((m.log (.exhausted e.kind k.bytes)).releaseCached r).2.Has r
      fun f => e.reclaims + 1 ≤ f.reclaims := by
    have he' : (m.log (.exhausted e.kind k.bytes)).emulated? r = some e := he
    have hbegun : ((m.log (.exhausted e.kind k.bytes)).setEmulated r e.beginPass).Has r
        fun f => e.reclaims + 1 ≤ f.reclaims :=
      ⟨_, emulated?_setEmulated_self he' _, Nat.le_refl _⟩
    unfold releaseCached
    rw [he']
    exact (hbegun.releaseLists hlasting.quiet r _).congr rfl
  unfold reclaimFor
  dsimp only
  split
  · rename_i hb
    obtain ⟨f, hf, hr⟩ := Option.bind_eq_some_iff.mp hb
    exact has_takeReserved hlasting hf hr hpassed
  · exact hpassed

namespace Tenant

variable {r : ResourceId} {t : Tenant} {w : Want} {e e' : Emulated}

/-! ## One step -/

/-- What a step does to the blocks of a key: how many are cached and how many are held, before it
and after it, how many it obtains from the system, and how many it hands out. -/
inductive Move : Nat → Nat → Nat → Nat → Nat → Nat → Prop
  | none (c n : Nat) : Move c n c n 0 0
  | reuse (c n : Nat) : Move (c + 1) n c (n + 1) 0 1
  | obtain (n : Nat) : Move 0 n 0 (n + 1) 1 1
  | cache (c n : Nat) : Move c (n + 1) (c + 1) n 0 0

/-- A step without a release pass. The resource is `e` before it and `e'` after it. -/
structure Turn (r : ResourceId) (t : Tenant) (e : Emulated) (w : Want) (e' : Emulated) :
    Prop where
  resource : (t.step r w).machine.emulated? r = some e'
  here : Move (e.free.blocks w.key).length (t.count w.key) (e'.free.blocks w.key).length
    ((t.step r w).count w.key) (t.fetches r w) (t.grants r w)
  elsewhere : ∀ k, w.key ≠ k →
    e'.free.blocks k = e.free.blocks k ∧ (t.step r w).count k = t.count k
  allocations : e'.allocations = e.allocations + t.fetches r w
  reuses : e'.reuses + t.fetches r w = e.reuses + t.grants r w
  reclaims : e'.reclaims = e.reclaims

theorem count_step_take (k j : BlockKey) :
    (t.step r (.take k)).count j =
      t.count j + if k = j then (t.granted? r (.take k)).toList.length else 0 := by
  have hheld : (t.step r (.take k)).held =
      ((t.granted? r (.take k)).map (k, ·)).toList ++ t.held := rfl
  unfold count
  rw [hheld]
  cases t.granted? r (.take k) with
  | none => simp
  | some b => simp [List.countP_cons]

theorem count_step_give {k : BlockKey} {b : BlockId} (h : (k, b) ∈ t.held) (j : BlockKey) :
    (t.step r (.give k b)).count j + (if k = j then 1 else 0) = t.count j := by
  have hcount := (List.perm_cons_erase h).countP_eq fun x => decide (x.1 = j)
  unfold count
  rw [hcount, List.countP_cons]
  simp [step]

/-- How many blocks an answer hands out. -/
def size (answer : Except Failure BlockId) : Nat := answer.toOption.toList.length

/-- A request is a turn if its answer fits what it did to the resource. -/
theorem turn_of_answer (he : t.machine.emulated? r = some e) {k : BlockKey}
    {answer : Except Failure BlockId} {m : Machine} {n : Nat}
    (ho : t.machine.allocateAsync r k = (answer, m)) (he' : m.emulated? r = some e')
    (hn : (obtained m.trace).length = (obtained t.machine.trace).length + n)
    (here : Move (e.free.blocks k).length (t.count k) (e'.free.blocks k).length
      (t.count k + size answer) n (size answer))
    (helsewhere : ∀ j, k ≠ j → e'.free.blocks j = e.free.blocks j)
    (hallocations : e'.allocations = e.allocations + n)
    (hreuses : e'.reuses + n = e.reuses + size answer) (hreclaims : e'.reclaims = e.reclaims) :
    t.Turn r e (.take k) e' := by
  have hmachine : (t.step r (.take k)).machine =
      Machine.lend r k.bytes k.alignment (answer, m) :=
    (Machine.call_allocateAsync he k).trans (congrArg _ ho)
  have hgranted : t.granted? r (.take k) = answer.toOption := congrArg (·.1.toOption) ho
  have hgrants : t.grants r (.take k) = size answer := congrArg (·.toList.length) hgranted
  have hcount : ∀ j, (t.step r (.take k)).count j =
      t.count j + if k = j then size answer else 0 := by
    intro j
    rw [count_step_take, hgranted]
    rfl
  have hresource : (Machine.lend r k.bytes k.alignment (answer, m)).emulated? r = some e' := by
    cases answer <;> exact he'
  have hobtained : obtained (Machine.lend r k.bytes k.alignment (answer, m)).trace =
      obtained m.trace := by
    cases answer <;> rfl
  have hfetches : t.fetches r (.take k) = n := by
    unfold fetches
    rw [hmachine, hobtained, hn, Nat.add_sub_cancel_left]
  refine ⟨hmachine ▸ hresource, ?_, ?_, ?_, ?_, hreclaims⟩
  · rw [hcount, hfetches, hgrants]
    simpa [Want.key] using here
  · intro j hj
    have hj' : ¬ k = j := hj
    rw [hcount, if_neg hj']
    exact ⟨helsewhere j hj, rfl⟩
  · rw [hfetches, hallocations]
  · rw [hfetches, hgrants, hreuses]

theorem turn_reuse (he : t.machine.emulated? r = some e) {k : BlockKey} {b : BlockId}
    (hu : e.reuse? k = some (b, e'))
    (ho : t.machine.allocateAsync r k =
      (.ok b, (t.machine.setEmulated r e').log (.reused k.stream k.bytes))) :
    t.Turn r e (.take k) e' := by
  obtain ⟨⟨b', g⟩, hpop, hbe⟩ := Option.map_eq_some_iff.mp hu
  cases hbe
  have hblocks := FreeLists.blocks_pop hpop
  refine turn_of_answer he ho (Machine.emulated?_setEmulated_self he _) (n := 0) rfl ?_ ?_ rfl rfl
    rfl
  · have hlength : (e.free.blocks k).length = (g.blocks k).length + 1 := by
      rw [hblocks k, if_pos rfl, List.length_cons]
    rw [hlength]
    exact .reuse _ _
  · intro j hj
    rw [hblocks j, if_neg hj]

theorem turn_takeReserved (he : t.machine.emulated? r = some e) {k : BlockKey}
    (hempty : e.free.blocks k = [])
    (ho : t.machine.allocateAsync r k =
      t.machine.takeReserved r { e with live := e.live.add k.bytes } k) :
    ∃ e', t.Turn r e (.take k) e' := by
  unfold Machine.takeReserved at ho
  split at ho
  · exact ⟨_, turn_of_answer he ho (Machine.emulated?_setEmulated_self he _) (n := 0) rfl
      (.none _ _) (fun _ _ => rfl) rfl rfl rfl⟩
  · rename_i b heap m hb
    have hm := (Machine.emulated?_takeBlock hb r).trans he
    obtain ⟨-, -, rfl⟩ := Machine.takeBlock_eq_ok hb
    refine ⟨_, turn_of_answer he ho (Machine.emulated?_setEmulated_self hm _) (n := 1) rfl ?_
      (fun _ _ => rfl) rfl rfl rfl⟩
    change Move (e.free.blocks k).length _ (e.free.blocks k).length _ _ _
    rw [hempty]
    exact .obtain _

theorem turn_give (he : t.machine.emulated? r = some e) {k : BlockKey} {b : BlockId}
    (h : (k, b) ∈ t.held) : t.Turn r e (.give k b) (e.cache k b) := by
  have hmachine : (t.step r (.give k b)).machine =
      (t.machine.emit (.released ⟨b, r, k.bytes, k.alignment⟩)).cacheBlock r e b k :=
    Machine.call_releaseAsync he _ _
  have hcount := count_step_give (r := r) h
  have hfetches : t.fetches r (.give k b) = 0 := by
    unfold fetches
    rw [hmachine]
    exact Nat.sub_self _
  have hblocks := e.free.blocks_push k (b := b)
  refine ⟨?_, ?_, ?_, ?_, ?_, rfl⟩
  · rw [hmachine]
    exact Machine.emulated?_setEmulated_self
      (m := t.machine.emit (.released ⟨b, r, k.bytes, k.alignment⟩)) he _
  · have hlength : ((e.cache k b).free.blocks k).length = (e.free.blocks k).length + 1 := by
      rw [Emulated.cache, hblocks, if_pos rfl, List.length_cons]
    have hheld := hcount k
    rw [if_pos rfl] at hheld
    rw [Want.key, hlength, ← hheld, hfetches]
    exact .cache _ _
  · intro j hj
    have hj' : ¬ k = j := hj
    have hheld := hcount j
    rw [if_neg hj'] at hheld
    exact ⟨(hblocks j).trans (if_neg hj'), hheld⟩
  · rw [hfetches]
    rfl
  · rw [hfetches]
    rfl

/-- A step runs a release pass, or it is a turn. -/
theorem turn (he : t.machine.emulated? r = some e) (hw : t.Fair w) :
    (t.step r w).machine.Has r (fun f => e.reclaims + 1 ≤ f.reclaims) ∨
      ∃ e', t.Turn r e w e' := by
  cases w with
  | give k b => exact .inr ⟨_, turn_give he hw⟩
  | take k =>
    rcases Machine.allocateAsync_cases he k with ⟨-, h⟩ | ⟨b, e', -, hu, h⟩ |
      ⟨-, hempty, ⟨-, -, h⟩ | ⟨-, h⟩ | ⟨-, h⟩⟩
    · exact .inr ⟨e, turn_of_answer he h he rfl (.none _ _) (fun _ _ => rfl) rfl rfl rfl⟩
    · exact .inr ⟨e', turn_reuse he hu h⟩
    · exact .inr (turn_takeReserved he hempty h)
    · exact .inr ⟨e, turn_of_answer he h he rfl (.none _ _) (fun _ _ => rfl) rfl rfl rfl⟩
    · have hpassed := (Machine.has_reclaimFor he k).lend (q := r) k.bytes k.alignment
      rw [← h, ← Machine.call_allocateAsync he k] at hpassed
      exact .inl hpassed

/-! ## Runs -/

/-- Of every key, as many blocks are cached or held as were ever held at once. -/
structure Met (r : ResourceId) (t : Tenant) (e : Emulated) (most : BlockKey → Nat) : Prop where
  resource : t.machine.emulated? r = some e
  matched : ∀ k, (e.free.blocks k).length + t.count k = most k

theorem Met.step {most : BlockKey → Nat} (h : t.Met r e most) (hturn : t.Turn r e w e') :
    (t.step r w).Met r e' (fun k => max (most k) ((t.step r w).count k)) ∧
      ∀ k, (most k + if w.key = k then t.fetches r w else 0) =
        max (most k) ((t.step r w).count k) := by
  have hkey : ∀ k, (e'.free.blocks k).length + (t.step r w).count k =
        max (most k) ((t.step r w).count k) ∧
      (most k + if w.key = k then t.fetches r w else 0) =
        max (most k) ((t.step r w).count k) := by
    intro k
    have hmatched := h.matched k
    by_cases hk : w.key = k
    · have here := hturn.here
      rw [hk] at here
      rw [if_pos hk]
      generalize (e.free.blocks k).length = c at *
      generalize (e'.free.blocks k).length = c' at *
      generalize t.count k = n at *
      generalize (t.step r w).count k = n' at *
      generalize t.fetches r w = f at *
      generalize t.grants r w = g at here
      cases here <;> omega
    · obtain ⟨hblocks, hcount⟩ := hturn.elsewhere k hk
      rw [hblocks, hcount, if_neg hk]
      omega
  exact ⟨⟨hturn.resource, fun k => (hkey k).1⟩, fun k => (hkey k).2⟩

theorem has_run {P : Emulated → Prop} (c : Emulated.Lasting P) (h : t.machine.Has r P)
    (ws : List Want) : (t.run r ws).machine.Has r P := by
  induction ws generalizing t with
  | nil => exact h
  | cons w ws ih =>
    have hstays : w.call r ≠ .drop r := by cases w <;> exact Call.noConfusion
    exact ih ((custody_lasting c r).call hstays h)

/-- If no pass was run in the end, none was run on the way. -/
theorem turn_of_run {ws : List Want} (he : t.machine.emulated? r = some e) (hw : t.Fair w)
    (hlast : ((t.step r w).run r ws).machine.emulated? r = some e')
    (hpasses : e'.reclaims = e.reclaims) : ∃ f, t.Turn r e w f := by
  refine (turn he hw).resolve_left fun hpassed => ?_
  have hmore := (has_run (lasting_reclaims _) hpassed ws).of_some hlast
  omega

theorem Met.run {most : BlockKey → Nat} {ws : List Want} (h : t.Met r e most)
    (hf : t.FairRun r ws) (hlast : (t.run r ws).machine.emulated? r = some e')
    (hpasses : e'.reclaims = e.reclaims) :
    (t.run r ws).Met r e' (fun k => max (most k) (t.peak r ws k)) ∧
      (∀ k, most k + t.fetched r ws k = max (most k) (t.peak r ws k)) ∧
      e'.allocations = e.allocations + tally r (fetches r) t ws ∧
      e'.reuses + tally r (fetches r) t ws = e.reuses + tally r (grants r) t ws := by
  have hheld : ∀ k, max (most k) (t.count k) = most k :=
    fun k => Nat.max_eq_left (h.matched k ▸ Nat.le_add_left _ _)
  induction ws generalizing t e most with
  | nil =>
    obtain rfl : e = e' := Option.some.inj (h.resource.symm.trans hlast)
    have hpeak : ∀ k, max (most k) (t.peak r [] k) = most k := by
      intro k
      rw [peak, counts, highest_cons, highest_nil, Nat.max_zero, hheld]
    simp only [hpeak]
    exact ⟨h, fun _ => rfl, rfl, rfl⟩
  | cons w ws ih =>
    obtain ⟨f, hturn⟩ := turn_of_run h.resource hf.1 hlast hpasses
    obtain ⟨hmet, hfetches⟩ := h.step hturn
    obtain ⟨hend, hfetched, hallocations, hreuses⟩ :=
      ih hmet hf.2 hlast (hpasses.trans hturn.reclaims.symm) (fun k => by omega)
    -- the first count of the rest is the one after this step
    have hpeak : ∀ k, max (most k) (t.peak r (w :: ws) k) =
        max (max (most k) ((t.step r w).count k)) ((t.step r w).peak r ws k) := by
      intro k
      have hfirst : (t.step r w).count k ≤ (t.step r w).peak r ws k := by
        cases ws <;> exact Nat.le_max_left _ _
      have hnow := hheld k
      rw [peak, counts, highest_cons, ← peak]
      omega
    simp only [hpeak]
    refine ⟨hend, fun k => ?_, ?_, ?_⟩
    · rw [← hfetched k, ← hfetches k]
      exact (Nat.add_assoc _ _ _).symm
    · rw [hallocations, hturn.allocations]
      exact Nat.add_assoc _ _ _
    · have hnow := hturn.reuses
      simp only [tally]
      omega

/-- As long as no release pass runs, a new resource obtains as many blocks for each key as were ever
held at once, and caches those that are not held. Every other request was served from the cache. -/
theorem fetched_eq_peak {env : Environment} {before : List Call} {kind : MemoryKind}
    {config : Config} {t : Tenant} {r : ResourceId} {ws : List Want}
    (ht : t = ⟨(Machine.start env).run (before ++ [.build (.emulated kind config)]), []⟩)
    (hr : r = ((Machine.start env).run before).resources.length) (hf : t.FairRun r ws) :
    ∃ e, (t.run r ws).machine.emulated? r = some e ∧ (e.reclaims = 0 →
      (∀ k, t.fetched r ws k = t.peak r ws k ∧
        (e.free.blocks k).length + (t.run r ws).count k = t.peak r ws k) ∧
      e.allocations = ∑ k ∈ (ws.map Want.key).toFinset, t.peak r ws k ∧
      e.reuses + ∑ k ∈ (ws.map Want.key).toFinset, t.peak r ws k =
        tally r (grants r) t ws) := by
  have hnew : t.machine.emulated? r = some { kind, config } := by
    subst ht hr
    rw [Machine.run_append]
    exact (Machine.emulated?_create _ _ _).trans (if_pos rfl)
  have hmet : t.Met r { kind, config } fun _ => 0 := by
    subst ht
    exact ⟨hnew, fun _ => rfl⟩
  obtain ⟨e, he, -⟩ := has_run (P := fun e => 0 ≤ e.reclaims) (lasting_reclaims 0)
    ⟨_, hnew, Nat.le_refl 0⟩ ws
  refine ⟨e, he, fun hpasses => ?_⟩
  obtain ⟨hend, hfetched, hallocations, hreuses⟩ := hmet.run hf he hpasses
  simp only [Nat.zero_max, Nat.zero_add] at hend hfetched hallocations hreuses
  have hkeys : ∀ w ∈ ws, w.key ∈ (ws.map Want.key).toFinset :=
    fun _ hw => List.mem_toFinset.mpr (List.mem_map_of_mem hw)
  have hsum : ∑ k ∈ (ws.map Want.key).toFinset, t.peak r ws k = tally r (fetches r) t ws :=
    (Finset.sum_congr rfl fun k _ => (hfetched k).symm).trans (sum_tally (fetches r) t hkeys)
  rw [hsum]
  exact ⟨fun k => ⟨hfetched k, hend.matched k⟩, hallocations, hreuses⟩

/-- A client of a new resource of 24 bytes. -/
def newcomer : Tenant :=
  ⟨(Machine.start {}).run ([] ++ [.build (.emulated .device (.of 24 8 false))]), []⟩

/-- Blocks are requested on two streams, and once there is no room. -/
def errands : List Want :=
  [.take ⟨1, 8, 8⟩, .take ⟨1, 8, 8⟩, .give ⟨1, 8, 8⟩ 0, .take ⟨2, 8, 8⟩, .take ⟨2, 8, 8⟩,
    .take ⟨1, 8, 8⟩, .give ⟨1, 8, 8⟩ 1, .give ⟨2, 8, 8⟩ 2, .take ⟨2, 8, 8⟩]

theorem fetched_errands :
    newcomer.fetched 0 errands ⟨1, 8, 8⟩ = 2 ∧ newcomer.fetched 0 errands ⟨2, 8, 8⟩ = 1 ∧
      ∃ e, (newcomer.run 0 errands).machine.emulated? 0 = some e ∧ e.reclaims = 0 ∧
        (e.free.blocks ⟨1, 8, 8⟩).length = 1 ∧ e.allocations = 3 ∧ e.reuses = 2 := by
  have ht : newcomer =
      ⟨(Machine.start {}).run ([] ++ [.build (.emulated .device (.of 24 8 false))]), []⟩ :=
    rfl
  have hfair : newcomer.FairRun 0 errands := by decide +kernel
  have hone : newcomer.peak 0 errands ⟨1, 8, 8⟩ = 2 := by decide +kernel
  have htwo : newcomer.peak 0 errands ⟨2, 8, 8⟩ = 1 := by decide +kernel
  have hheld : (newcomer.run 0 errands).count ⟨1, 8, 8⟩ = 1 := by decide +kernel
  have hgrants : tally 0 (grants 0) newcomer errands = 5 := by decide +kernel
  have hpasses : ((newcomer.run 0 errands).machine.emulated? 0).map Emulated.reclaims = some 0 := by
    decide +kernel
  have hkeys : (errands.map Want.key).toFinset = {⟨1, 8, 8⟩, ⟨2, 8, 8⟩} := by decide
  have hsum : ∑ k ∈ (errands.map Want.key).toFinset, newcomer.peak 0 errands k = 3 := by
    rw [hkeys, Finset.sum_pair (by decide), hone, htwo]
  obtain ⟨e, he, hmet⟩ := fetched_eq_peak (r := 0) ht rfl hfair
  have hnone : e.reclaims = 0 := by
    rw [he] at hpasses
    exact Option.some.inj hpasses
  obtain ⟨hkey, hallocations, hreuses⟩ := hmet hnone
  have hcached := (hkey ⟨1, 8, 8⟩).2
  rw [hsum] at hallocations hreuses
  rw [hheld, hone] at hcached
  rw [hgrants] at hreuses
  exact ⟨(hkey _).1.trans hone, (hkey _).1.trans htwo, e, he, hnone, Nat.succ.inj hcached,
    hallocations, Nat.add_right_cancel hreuses⟩

end Tenant

end StreamMemory
