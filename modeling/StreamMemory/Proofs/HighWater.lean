import StreamMemory.Proofs.Admission

/-!
# High-water marks

A resource counts the bytes of a request as in use before it asks the heap for them. If the heap
refuses, the bytes are taken off the gauge again, but the gauge has seen them: its peak is the
largest amount that was counted for any request (`crest`), be it served or not. It is the largest
amount in use after a call only as long as no call counts more than it leaves in use.
-/

set_option autoImplicit false

namespace StreamMemory

/-- The largest of some amounts, and 0 if there are none. -/
def highest (ns : List Nat) : Nat := ns.foldr max 0

@[simp] theorem highest_nil : highest [] = 0 := rfl

@[simp] theorem highest_cons (n : Nat) (ns : List Nat) :
    highest (n :: ns) = max n (highest ns) := rfl

/-! ## Resources that are not asked -/

/-- A property of resources that only requests for blocks can break. -/
structure Emulated.Quiet (P : Emulated → Prop) : Prop where
  heap : ∀ e heap, P e → P { e with heap }
  cache : ∀ e k b, P e → P (e.cache k b)
  beginPass : ∀ e, P e → P e.beginPass

namespace Machine.Has

variable {m m' : Machine} {q r : ResourceId} {P : Emulated → Prop} {e : Emulated}

theorem setEmulated_of_ne (h : m.Has r P) (hq : q ≠ r) (he : m.emulated? q = some e)
    (e' : Emulated) : (m.setEmulated q e').Has r P := by
  obtain ⟨f, hf, hP⟩ := h
  refine ⟨f, ?_, hP⟩
  rw [emulated?_setEmulated he, if_neg (Ne.symm hq)]
  exact hf

theorem takeBlock (h : m.Has r P) {heap heap' : Heap} {bytes alignment : Nat} {b : BlockId}
    (hb : m.takeBlock q heap bytes alignment = .ok (b, heap', m')) : m'.Has r P :=
  h.congr (resources_takeBlock hb)

theorem lend {o : Except Failure BlockId × Machine} (h : o.2.Has r P) (bytes alignment : Nat) :
    (Machine.lend q bytes alignment o).Has r P := by
  rcases o with ⟨f | b, m⟩
  · exact h
  · exact h.congr rfl

theorem create (h : m.Has r P) (x : Resource) : (m.create x).2.Has r P := by
  obtain ⟨e, he, hP⟩ := h
  have hlt := lt_of_resource? (emulated?_eq_some.mp he)
  refine ⟨e, ?_, hP⟩
  rw [emulated?_create, if_neg (Nat.ne_of_lt hlt)]
  exact he

theorem build (h : m.Has r P) (blueprint : Blueprint) : (m.build blueprint).Has r P := by
  cases blueprint with
  | emulated kind config =>
    have hlogged : (m.log (.resourceCreated kind config)).Has r P := h.congr rfl
    exact hlogged.create _
  | _ => exact h.create _

section Quiet
variable (c : Emulated.Quiet P)
include c

theorem drain (h : m.Has r P) (request : DrainRequest) (s : StreamId) :
    (m.drain request s).2.Has r P :=
  (drainStable c.cache).drain request s h

theorem synchronizeNoThrow (h : m.Has r P) (s : StreamId) : (m.synchronizeNoThrow s).Has r P :=
  (drainStable c.cache).synchronizeNoThrow s h

theorem releaseLists (h : m.Has r P) (q : ResourceId)
    (lists : KeyedList BlockKey (List BlockId)) : (m.releaseLists q lists).Has r P :=
  (drainStable c.cache).releaseLists (fun _ _ _ hm => hm.giveBack c.heap) lists h

theorem releaseCached (h : m.Has r P) (q : ResourceId) : (m.releaseCached q).2.Has r P :=
  (drainStable c.cache).releaseCached (fun _ _ _ hm => hm.giveBack c.heap)
    (fun _ _ hm => hm.congr rfl) (fun e he => h.setEmulated he (c.beginPass e)) h

theorem drop (h : m.Has r P) (hq : q ≠ r) : (m.drop q).Has r P := by
  refine (drainStable c.cache).drop (fun _ _ _ hm => hm.giveBack c.heap)
    (fun _ _ hm => hm.congr rfl) ?_ h
  obtain ⟨e, he, hP⟩ := h
  exact ⟨e, (emulated?_set_of_ne hq m none).trans he, hP⟩

theorem cacheBlock (h : m.Has r P) (he : m.emulated? q = some e) (b : BlockId) (k : BlockKey) :
    (m.cacheBlock q e b k).Has r P :=
  (h.setEmulated he (c.cache e k b)).congr rfl

theorem deallocateAsync (h : m.Has r P) (q : ResourceId) (b : BlockId) (k : BlockKey) :
    (m.deallocateAsync q b k).Has r P := by
  unfold Machine.deallocateAsync
  split
  · exact h.cacheBlock c ‹_› b k
  · exact h

/-- Only what a call asks of a resource can break a property that requests can break. -/
theorem upkeep {step : Call} (hasks : step.asks r = false) :
    Upkeep (fun _ c => c ≠ .drop r) True step fun m _ => m.Has r P where
  note _ _ h := h.congr rfl
  frame _ _ hr _ _ _ h := h.congr hr
  drain request s h := h.drain c request s
  reuse hq he _ h := (h.setEmulated_of_ne (Call.ne_of_asks hasks hq) he _).congr rfl
  refuse hq he _ h := h.setEmulated_of_ne (Call.ne_of_asks hasks hq) he _
  fresh hq he _ hb h := by
    have hset := (h.takeBlock hb).setEmulated_of_ne (Call.ne_of_asks hasks hq)
      ((emulated?_takeBlock hb _).trans he)
    exact (hset _).congr rfl
  cache he h := h.cacheBlock c he _ _
  pass _ _ h := h.releaseCached c _
  drop hc hl h := h.drop c fun hq => hl (hc.trans (congrArg Call.drop hq))
  plainFresh _ hx _ hb h :=
    (h.takeBlock hb).setHeap ((resource?_takeBlock hb _).trans hx) fun _ e => c.heap e _
  plainReturn _ _ _ h := h.giveBack c.heap
  build _ _ h := h.build _
  createStream _ h := h.congr rfl
  enqueue _ _ h := h.congr rfl
  releaseAsync {_ q _ _} _ _ _ h := ⟨q, .inl rfl, h.congr rfl⟩
  release {_ q _} _ _ _ h := ⟨q, .inl rfl, h.congr rfl⟩

/-- What is asked of other resources does not concern a resource. -/
theorem call (h : m.Has r P) {step : Call} (hasks : step.asks r = false) (hdrop : step ≠ .drop r) :
    (m.call step).Has r P :=
  (upkeep c hasks).call (fun _ hm => hm.congr rfl) hdrop h

end Quiet

end Machine.Has

/-! ## Requests -/

namespace Machine

/-- Whether a resource takes a request for a fresh block to its heap. -/
def admits (m : Machine) (r : ResourceId) (k : BlockKey) : Bool :=
  (m.emulated? r).any fun e => e.supports k.alignment && e.fits k.bytes

/-- The bytes that a request had counted as in use when it was answered. A request that fails for
want of room counts nothing. If the heap refuses what was counted, there is room for it again. -/
def crestOf (r : ResourceId) (k : BlockKey) : Except Failure BlockId × Machine → Nat
  | (.ok _, m) => m.liveBytes r
  | (.error _, m) => if m.admits r k = true then m.liveBytes r + k.bytes else 0

/-- The largest amount that a call counts as in use on behalf of its request. -/
def crest (m : Machine) (r : ResourceId) : Call → Nat
  | .allocateAsync q k => if q = r then crestOf r k (m.allocateAsync r k) else 0
  | .allocate q bytes alignment =>
    if q = r then
      match m.synchronize StreamMemory.defaultStream with
      | (.ok _, m) =>
        crestOf r ⟨StreamMemory.defaultStream, bytes, alignment⟩
          (m.allocateAsync r ⟨StreamMemory.defaultStream, bytes, alignment⟩)
      | (.error _, _) => 0
    else 0
  | _ => 0

/-- A resource has a configuration and a mark, and has never had more in use. -/
def Marked (r : ResourceId) (config : Config) (n : Nat) (m : Machine) : Prop :=
  m.Has r fun e => e.config = config ∧ e.live.peak = n ∧ e.live.current ≤ n

variable {m m' : Machine} {r : ResourceId} {e e' : Emulated} {k : BlockKey} {config : Config}
variable {n : Nat}

theorem quiet_marked (config : Config) (n : Nat) :
    Emulated.Quiet fun e => e.config = config ∧ e.live.peak = n ∧ e.live.current ≤ n where
  heap _ _ h := h
  cache _ k _ h := ⟨h.1, h.2.1, Nat.le_trans (Nat.sub_le _ k.bytes) h.2.2⟩
  beginPass _ h := h

theorem liveBytes_of_some (he : m.emulated? r = some e) : m.liveBytes r = e.live.current := by
  unfold liveBytes
  rw [he]
  rfl

theorem admits_of_some (he : m.emulated? r = some e) :
    m.admits r k = (e.supports k.alignment && e.fits k.bytes) := by
  unfold admits
  rw [he]
  rfl

theorem crestOf_of_admits (h : m.admits r k = true) (f : Failure) :
    crestOf r k (.error f, m) = m.liveBytes r + k.bytes := if_pos h

theorem crestOf_of_not_admits (h : m.admits r k = false) (f : Failure) :
    crestOf r k (.error f, m) = 0 := if_neg (Bool.eq_false_iff.mp h)

theorem admits_of_full (he : m.emulated? r = some e) (hr : e.reserve? k.bytes = none) :
    m.admits r k = false := by
  rw [admits_of_some he]
  unfold Emulated.reserve? at hr
  split at hr
  · cases hr
  · rename_i hfits
    rw [Bool.eq_false_iff.mpr hfits, Bool.and_false]

namespace Marked

theorem liveBytes_le (h : m.Marked r config n) : m.liveBytes r ≤ n := by
  obtain ⟨e, he, -, -, hle⟩ := h
  rw [liveBytes_of_some he]
  exact hle

/-- A request that counts nothing leaves the mark. -/
theorem refused (h : m.Marked r config n) (hadmits : m.admits r k = false) (f : Failure) :
    m.Marked r config (max n (crestOf r k (.error f, m))) := by
  rwa [crestOf_of_not_admits hadmits, Nat.max_zero]

/-- A request that was served raises the mark to what is in use then. -/
theorem served (he : m.emulated? r = some e) (hconfig : e.config = config)
    (hpeak : e.live.peak = max n e.live.current) (b : BlockId) :
    m.Marked r config (max n (crestOf r k (.ok b, m))) := by
  have hcrest : crestOf r k (.ok b, m) = e.live.current := liveBytes_of_some he
  rw [hcrest]
  exact ⟨e, he, hconfig, hpeak, Nat.le_max_right _ _⟩

theorem reuse (h : m.Marked r config n) (he : m.emulated? r = some e) {b : BlockId}
    (hu : e.reuse? k = some (b, e')) :
    ((m.setEmulated r e').log (.reused k.stream k.bytes)).Marked r config
      (max n (crestOf r k (.ok b, (m.setEmulated r e').log (.reused k.stream k.bytes)))) := by
  obtain ⟨hconfig, hpeak, -⟩ := h.of_some he
  have hset := emulated?_setEmulated_self he e'
  obtain ⟨⟨b', g⟩, -, hbe⟩ := Option.map_eq_some_iff.mp hu
  cases hbe
  refine served (m := (m.setEmulated r _).log _) hset hconfig ?_ b
  rw [← hpeak]
  rfl

/-- A request counts its bytes before the heap answers. -/
theorem takeReserved (h : m.Marked r config n) (he : m.emulated? r = some e)
    (hs : e.supports k.alignment = true) (hr : e.reserve? k.bytes = some e') :
    (m.takeReserved r e' k).2.Marked r config (max n (crestOf r k (m.takeReserved r e' k))) := by
  obtain ⟨rfl, hroom⟩ := Emulated.reserve?_eq_some hr
  obtain ⟨hconfig, hpeak, hle⟩ := h.of_some he
  unfold Machine.takeReserved
  split
  · rename_i f _
    let back := Emulated.unreserve { e with live := e.live.add k.bytes } k.bytes
    have hset : (m.setEmulated r back).emulated? r = some back :=
      emulated?_setEmulated_self he back
    -- what was given up fits again, which tells this failure from one for want of room
    have hback : back.live.current = e.live.current := Emulated.current_unreserve hr
    have hfits : back.fits k.bytes = true := by
      apply decide_eq_true
      unfold Emulated.footprint
      rw [hback]
      exact hroom
    have hadmits : (m.setEmulated r back).admits r k = true := by
      rw [admits_of_some hset, hfits, Bool.and_true]
      exact hs
    rw [crestOf_of_admits hadmits, liveBytes_of_some hset, hback]
    refine ⟨back, hset, hconfig, ?_, ?_⟩
    · rw [← hpeak, ← Emulated.sum_of_fits hroom]
      rfl
    · rw [hback]
      exact Nat.le_trans hle (Nat.le_max_left _ _)
  · rename_i b heap m' hb
    have hset := emulated?_setEmulated_self ((emulated?_takeBlock hb r).trans he)
      (Emulated.allocated { e with live := e.live.add k.bytes } heap)
    refine served (m := (m'.setEmulated r _).log _) hset hconfig ?_ b
    rw [← hpeak]
    rfl

theorem reclaimFor (h : m.Marked r config n) (he : m.emulated? r = some e)
    (hs : e.supports k.alignment = true) :
    (m.reclaimFor r e k).2.Marked r config (max n (crestOf r k (m.reclaimFor r e k))) := by
  have hnoted : (m.log (.exhausted e.kind k.bytes)).Marked r config n := Has.congr h rfl
  have hpassed := hnoted.releaseCached (quiet_marked config n) r
  have ⟨f, hf, hconfig, _⟩ := hpassed
  have hfs : f.supports k.alignment = true := by
    unfold Emulated.supports at hs ⊢
    rwa [hconfig, ← (h.of_some he).1]
  unfold Machine.reclaimFor
  dsimp only
  rw [hf, Option.bind_some]
  split
  · rename_i hr
    exact takeReserved hpassed hf hfs hr
  · rename_i hr
    exact refused hpassed (admits_of_full hf hr) _

theorem allocateAsync (h : m.Marked r config n) (k : BlockKey) :
    (m.allocateAsync r k).2.Marked r config (max n (crestOf r k (m.allocateAsync r k))) := by
  have ⟨e, he, _⟩ := h
  unfold Machine.allocateAsync
  rw [he]
  dsimp only
  split
  · rename_i hs
    split
    · rename_i hu
      exact reuse h he hu
    · split
      · rename_i hr
        exact takeReserved h he hs hr
      · rename_i hr
        split
        · exact reclaimFor h he hs
        · exact refused h (admits_of_full he hr) _
  · rename_i hs
    refine refused h ?_ _
    rw [admits_of_some he, Bool.eq_false_iff.mpr hs, Bool.false_and]

/-- The synchronizations before and after a request leave the mark, and so does a rollback. -/
theorem allocate (h : m.Marked r config n) (bytes alignment : Nat) :
    (m.allocate r bytes alignment).2.Marked r config
      (max n (m.crest r (.allocate r bytes alignment))) := by
  have ⟨e, he, _⟩ := h
  have hall : m.allocate r bytes alignment = (emulatedBackend r).allocate m bytes alignment := by
    unfold Machine.allocate
    rw [backend?_eq_emulatedBackend he]
  have hsync : ∀ {m : Machine} {n}, m.Marked r config n →
      (m.synchronize defaultStream).2.Marked r config n :=
    fun hm => hm.drain (quiet_marked config _) .synchronize defaultStream
  have hviews : ∀ m : Machine, (emulatedBackend r).synchronize m (emulatedBackend r).defaultStream =
      ((m.synchronize defaultStream).1.mapError .stream, (m.synchronize defaultStream).2) :=
    fun _ => rfl
  have hm₁ := hsync h
  have h₁ := hviews m
  rw [hall, show m.crest r (.allocate r bytes alignment) = _ from if_pos rfl]
  rcases hs₁ : m.synchronize defaultStream with ⟨f | _, m₁⟩
  · rw [hs₁] at h₁ hm₁
    rw [Backend.allocate_of_synchronize_error h₁]
    dsimp only
    rw [Nat.max_zero]
    exact hm₁
  rw [hs₁] at h₁ hm₁
  have hm₂ := allocateAsync hm₁ ⟨defaultStream, bytes, alignment⟩
  dsimp only
  rcases h₂ : m₁.allocateAsync r ⟨defaultStream, bytes, alignment⟩ with ⟨f | b, m₂⟩
  · rw [h₂] at hm₂
    rw [Backend.allocate_of_allocateAsync_error h₁ h₂]
    exact hm₂
  rw [h₂] at hm₂
  have hm₃ := hsync hm₂
  have h₃ := hviews m₂
  rcases hs₃ : m₂.synchronize defaultStream with ⟨f | _, m₃⟩
  · rw [hs₃] at h₃ hm₃
    rw [Backend.allocate_of_second_synchronize_error h₁ h₂ h₃]
    exact hm₃.deallocateAsync (quiet_marked config _) r b ⟨defaultStream, bytes, alignment⟩
  · rw [hs₃] at h₃ hm₃
    rw [Backend.allocate_of_ok h₁ h₂ h₃]
    exact hm₃

/-- A call that asks for no block leaves the mark. -/
theorem of_not_asks (h : m.Marked r config n) {c : Call} (hasks : c.asks r = false)
    (hdrop : c ≠ .drop r) : (m.call c).Marked r config (max n (m.crest r c)) := by
  have hcrest : m.crest r c = 0 := by
    cases c with
    | allocateAsync q k => exact if_neg (by simpa [Call.asks] using hasks)
    | allocate q bytes alignment => exact if_neg (by simpa [Call.asks] using hasks)
    | _ => rfl
  rw [hcrest, Nat.max_zero]
  exact Has.call (quiet_marked config n) h hasks hdrop

theorem call (h : m.Marked r config n) {c : Call} (hdrop : c ≠ .drop r) :
    (m.call c).Marked r config (max n (m.crest r c)) := by
  by_cases hasks : c.asks r = true
  · cases c with
    | allocateAsync q k =>
      obtain rfl : q = r := by simpa [Call.asks] using hasks
      have ⟨e, he, _⟩ := h
      rw [call_allocateAsync he, show m.crest q (.allocateAsync q k) = _ from if_pos rfl]
      exact Has.lend (h.allocateAsync k) k.bytes k.alignment
    | allocate q bytes alignment =>
      obtain rfl : q = r := by simpa [Call.asks] using hasks
      exact Has.lend (h.allocate bytes alignment) bytes alignment
    | _ => cases hasks
  · exact h.of_not_asks (Bool.eq_false_iff.mpr hasks) hdrop

end Marked

/-! ## Runs -/

/-- The amounts that the calls of a run count as in use. -/
def crests (m : Machine) (r : ResourceId) : List Call → List Nat
  | [] => []
  | c :: cs => m.crest r c :: (m.call c).crests r cs

/-- The bytes in use after each call of a run. -/
def levels (m : Machine) (r : ResourceId) : List Call → List Nat
  | [] => []
  | c :: cs => (m.call c).liveBytes r :: (m.call c).levels r cs

/-- No more is counted for a call than is in use after it. -/
def Steady (r : ResourceId) (m : Machine) (c : Call) : Prop :=
  m.crest r c ≤ (m.call c).liveBytes r

theorem Marked.run (h : m.Marked r config n) {cs : List Call} (hdrop : ∀ c ∈ cs, c ≠ .drop r) :
    (m.run cs).Marked r config (max n (highest (m.crests r cs))) ∧
      highest (m.levels r cs) ≤ max n (highest (m.crests r cs)) := by
  induction cs generalizing m n with
  | nil => exact ⟨by rwa [crests, highest_nil, Nat.max_zero], Nat.zero_le _⟩
  | cons c cs ih =>
    rw [List.forall_mem_cons] at hdrop
    have hcall := h.call hdrop.1
    have hlive := hcall.liveBytes_le
    obtain ⟨hrun, hle⟩ := ih hcall hdrop.2
    rw [run_cons, crests, levels, highest_cons, highest_cons, ← Nat.max_assoc]
    exact ⟨hrun, Nat.max_le.mpr ⟨Nat.le_trans hlive (Nat.le_max_left _ _), hle⟩⟩

theorem Obeys.highest_crests_le {cs : List Call} (h : m.Obeys (Steady r) cs) :
    highest (m.crests r cs) ≤ highest (m.levels r cs) := by
  induction cs generalizing m with
  | nil => exact Nat.le_refl 0
  | cons c cs ih =>
    have hstep : m.crest r c ≤ (m.call c).liveBytes r := h.1
    have hrest := ih h.2
    rw [crests, levels, highest_cons, highest_cons]
    omega

theorem marked_build (m : Machine) (kind : MemoryKind) (config : Config) :
    (m.call (.build (.emulated kind config))).Marked m.resources.length config 0 := by
  refine ⟨{ kind, config }, ?_, rfl, rfl, Nat.le_refl 0⟩
  exact (emulated?_create (m.log (.resourceCreated kind config)) _ _).trans (if_pos rfl)

/-- The peak of a resource is the largest amount that it counted as in use for any request since it
was created. So it is never less than what was in use after a call, and just as much if no call
counts more than is in use after it. -/
theorem peak_run {env : Environment} {before after : List Call} {kind : MemoryKind}
    {config : Config} {m : Machine} {r : ResourceId}
    (hm : m = (start env).run (before ++ [.build (.emulated kind config)]))
    (hr : r = ((start env).run before).resources.length)
    (hdrop : ∀ c ∈ after, c ≠ .drop r) :
    ∃ e, (m.run after).emulated? r = some e ∧ e.config = config ∧
      e.live.peak = highest (m.crests r after) ∧
      highest (m.levels r after) ≤ e.live.peak ∧
      (m.Obeys (Steady r) after → e.live.peak = highest (m.levels r after)) := by
  have hbuilt : m.Marked r config 0 := by
    rw [hm, hr, run_append]
    exact marked_build _ kind config
  obtain ⟨⟨e, he, hconfig, hpeak, -⟩, hlevels⟩ := hbuilt.run hdrop
  rw [Nat.zero_max] at hpeak hlevels
  refine ⟨e, he, hconfig, hpeak, hpeak ▸ hlevels, ?_⟩
  intro hsteady
  rw [hpeak]
  exact Nat.le_antisymm hsteady.highest_crests_le hlevels

/-- The system has 8 bytes at once at most, and a resource is configured to hold 16. -/
def scarce : Machine :=
  (start (.serving fun l => decide (l.size ≤ 8))).run
    [.build (.emulated .device (.of 16 8 true))]

/-- A block is served and released, and 12 bytes are asked for. -/
def thirsty : List Call :=
  [.allocateAsync 0 ⟨1, 8, 8⟩, .releaseAsync 0 ⟨0, 0, 8, 8⟩ 1, .allocateAsync 0 ⟨2, 12, 8⟩]

theorem peak_thirsty :
    scarce.crests 0 thirsty = [8, 0, 12] ∧ scarce.levels 0 thirsty = [8, 0, 0] ∧
      ∃ e, (scarce.run thirsty).emulated? 0 = some e ∧ e.live.peak = 12 := by
  have hcrests : scarce.crests 0 thirsty = [8, 0, 12] := by decide +kernel
  have hdrop : ∀ c ∈ thirsty, c ≠ .drop 0 := by simp [thirsty]
  obtain ⟨e, he, -, hpeak, -, -⟩ :=
    @peak_run _ [] thirsty .device (.of 16 8 true) scarce 0 rfl rfl hdrop
  rw [hcrests] at hpeak
  exact ⟨hcrests, by decide +kernel, e, he, hpeak⟩

/-- There is a resource that may hold more than can be had in one block. -/
def boundless : Machine :=
  (start {}).run [.build (.emulated .device (.of 18446744073709551615 256 true))]

/-- A request for as many bytes as no block can have. -/
def excess : Call := .allocateAsync 0 ⟨defaultStream, addressLimit, 16⟩

/-- No byte is ever in use, and the peak is the size of a request that the heap refused. -/
theorem peak_ne_highest_level :
    boundless.answer? 0 excess =
        some (.error (.allocation addressLimit 16 .sizeOverflow)) ∧
      boundless.levels 0 [excess] = [0] ∧
      ((boundless.run [excess]).emulated? 0).map (·.live) =
        some { current := 0, peak := addressLimit } :=
  ⟨rfl, by decide +kernel, by decide +kernel⟩

end Machine

end StreamMemory
