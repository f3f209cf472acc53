import StreamMemory.Adaptor
import StreamMemory.Proofs.Refusals

/-!
# Adaptors

An adaptor makes a block larger or smaller by taking a new one, copying, and giving the old one
back. While the new block is asked for, operations and release passes may run; a block that a caller
has is safe from them unless an operation writes it or gives it up (`Spared`). Once a request was
served, the default stream is idle, so nothing runs any more when the old block is given back.
-/

set_option autoImplicit false

namespace StreamMemory

/-- Acts that leave what a block contains as it is, and do not give it up. -/
def avoiding (b : BlockId) (_ : StreamId) : Act → Bool
  | .write c .. | .free _ c _ => c != b
  | _ => true

/-- Whether an event tells that a block was given up, or that a resource or the system has it
back. -/
def Event.retakes (b : BlockId) : Event → Bool
  | released x => x.block == b
  | cached _ _ c | returned c _ => c == b
  | _ => false

/-- All that tells of a block being given up or got back. -/
def retakings (b : BlockId) (trace : List Event) : List Event := trace.filter (Event.retakes b)

theorem retakings_cons_of_not_retakes {b : BlockId} {e : Event} (h : e.retakes b = false)
    (trace : List Event) : retakings b (e :: trace) = retakings b trace := by
  unfold retakings
  rw [List.filter_cons, h]
  rfl

theorem retakings_cons_of_retakes {b : BlockId} {e : Event} (h : e.retakes b = true)
    (trace : List Event) : retakings b (e :: trace) = e :: retakings b trace :=
  List.filter_cons_of_pos h

theorem Event.retakes_of_not_moves {e : Event} (h : e.moves = false) (b : BlockId) :
    e.retakes b = false := by
  cases e <;> first | rfl | cases h

/-! ## Blocks that stay on loan -/

/-- A block that a caller has is still on loan, and nobody got it back since some moment. -/
structure Untaken (x : Loan) (past : List Event) (m : Machine) (hand pass : List Parcel) :
    Prop where
  audited : m.Audited hand pass
  lent : FairReleases m.trace → x ∈ onLoan m.trace
  retakings : FairReleases m.trace → retakings x.block m.trace = retakings x.block past

namespace Untaken

variable {x : Loan} {past : List Event} {m m' : Machine} {hand hand' pass pass' : List Parcel}
variable {r : ResourceId} {k : BlockKey} {b : BlockId}

theorem start (ha : m.Audited [] []) (hx : x ∈ onLoan m.trace) : Untaken x m.trace m [] [] :=
  ⟨ha, fun _ => hx, fun _ => rfl⟩

/-- A block that is in hand or cached is another one. -/
theorem apart (h : Untaken x past m hand pass) (hf : FairReleases m.trace) {p : Parcel}
    (hp : p ∈ hand ++ pass) : p.block ≠ x.block :=
  ((h.audited hf).apart (List.mem_map_of_mem (h.lent hf))).2.1 p (List.mem_append_right _ hp)

theorem keep (h : Untaken x past m hand pass) (ha : m'.Audited hand' pass')
    (ht : m'.trace = m.trace) : Untaken x past m' hand' pass' :=
  ⟨ha, ht ▸ h.lent, ht ▸ h.retakings⟩

theorem push (h : Untaken x past m hand pass) (ha : m'.Audited hand' pass') {e : Event}
    (ht : m'.trace = e :: m.trace) (he : e.trades = false)
    (hr : FairReleases m.trace → e.retakes x.block = false) : Untaken x past m' hand' pass' := by
  refine ⟨ha, fun hf => ?_, fun hf => ?_⟩
  · rw [ht] at hf ⊢
    rw [onLoan_cons_of_not_trades he]
    exact h.lent hf.tail
  · rw [ht] at hf ⊢
    rw [retakings_cons_of_not_retakes (hr hf.tail)]
    exact h.retakings hf.tail

theorem note (h : Untaken x past m hand pass) {e : Event} (he : e.moves = false) :
    Untaken x past (m.emit e) hand pass :=
  h.push (h.audited.note he) rfl (Event.trades_of_not_moves he)
    fun _ => Event.retakes_of_not_moves he _

theorem cache (h : Untaken x past m (⟨r, k, b⟩ :: hand) pass) {e : Emulated}
    (he : m.emulated? r = some e) :
    Untaken x past ((m.setEmulated r (e.cache k b)).emit (.cached r k b)) hand pass :=
  h.push (h.audited.cache he) rfl rfl fun hf => beq_false_of_ne (h.apart hf List.mem_cons_self)

theorem giveBack (h : Untaken x past m hand pass) {p : Parcel} (hp : p ∈ hand ++ pass)
    (ha : (m.giveBack r p.block p.key.bytes p.key.alignment).Audited hand' pass') :
    Untaken x past (m.giveBack r p.block p.key.bytes p.key.alignment) hand' pass' :=
  h.push ha (m.trace_giveBack _ _ _ _) rfl fun hf => beq_false_of_ne (h.apart hf hp)

theorem giveUp (h : Untaken x past m hand pass) {p : Parcel} (hp : p.block ≠ x.block) :
    Untaken x past (m.emit (.released p.loan)) (p :: hand) pass := by
  refine ⟨h.audited.giveUp p, fun hf => ?_, fun hf => ?_⟩
  · refine (List.mem_erase_of_ne ?_).mpr (h.lent hf.2)
    rintro rfl
    exact hp rfl
  · rw [show (m.emit (.released p.loan)).trace = .released p.loan :: m.trace from rfl,
      retakings_cons_of_not_retakes (e := .released p.loan) (beq_false_of_ne hp)]
    exact h.retakings hf.2

theorem respected (x : Loan) (past : List Event) (hand pass : List Parcel) :
    Respected (avoiding x.block) fun m => Untaken x past m hand pass where
  streams _ h := h.keep (h.audited.congr rfl rfl rfl) rfl
  emit he h := h.note he
  write _ _ _ _ _ _ h := h.keep (h.audited.congr rfl rfl (SystemMemory.layouts_modify _ _ _)) rfl
  free {m} s q b k ha h := by
    rcases m.freeBlock_eq s q b k with hf | ⟨e, he, hf⟩
    · rw [hf]
      exact h.note rfl
    · have hreleased := h.giveUp (p := ⟨q, k, b⟩) (bne_iff_ne.mp ha)
      rw [hf]
      exact ((hreleased.cache he).note rfl).note rfl

/-- Nothing that a request for a block sets in motion takes back what a caller has. -/
theorem handling (x : Loan) (past : List Event) : Handling (fun _ c => c.allocates = true) True
    fun m hand pass => m.Restrained (avoiding x.block) ∧ Untaken x past m hand pass where
  note he hw h := ⟨h.1.note hw, h.2.note he⟩
  frame hs hr ht hl hv h :=
    ⟨h.1.congr hs ht, h.2.keep (custody_audited.frame hs hr ht hl hv h.2.audited) ht⟩
  drain request s h := (respected x past _ _).drain h.1 request s h.2
  reuse he hu h := ⟨h.1.setEmulated _ _, h.2.keep (custody_audited.reuse he hu h.2.audited) rfl⟩
  refuse he hr h := ⟨h.1.setEmulated _ _, h.2.keep (custody_audited.refuse he hr h.2.audited) rfl⟩
  fresh {m m' hand r heap b e e' k} he hr hb h := by
    have ha := custody_audited.fresh he hr hb h.2.audited
    have ht : m'.trace = .obtained ⟨b, r, k.bytes, k.alignment⟩ :: m.trace := by
      obtain ⟨-, -, rfl⟩ := Machine.takeBlock_eq_ok hb
      rfl
    exact ⟨(h.1.takeBlock hb).setEmulated _ _, h.2.push ha ht rfl fun _ => rfl⟩
  cache he h := ⟨(h.1.setEmulated _ _).note rfl, h.2.cache he⟩
  beginPass he h :=
    ⟨h.1.setEmulated _ _, h.2.keep (custody_audited.beginPass he h.2.audited) rfl⟩
  discard hl _ _ := by cases hl
  reorder hp h := ⟨h.1, h.2.keep (h.2.audited.reorder hp) rfl⟩
  releaseKey {m hand r k bs lists} h :=
    Custody.releaseKey_of_giveBack
      (I := fun m hand pass => m.Restrained (avoiding x.block) ∧ Untaken x past m hand pass)
      (fun he hw hn => ⟨hn.1.note hw, hn.2.note he⟩)
      (fun request s hn => (respected x past _ _).drain hn.1 request s hn.2)
      (fun {m hand pass r b k} hn => ⟨hn.1.giveBack _ _ _ _,
        hn.2.giveBack (p := ⟨r, k, b⟩) (List.mem_append_right _ List.mem_cons_self)
          hn.2.audited.giveBackPass⟩) hand lists h
  plainFresh {m m' hand pass r heap b y k} hy hn hb h := by
    have ha := custody_audited.plainFresh hy hn hb h.2.audited
    have ht : m'.trace = .obtained ⟨b, r, k.bytes, k.alignment⟩ :: m.trace := by
      obtain ⟨-, -, rfl⟩ := Machine.takeBlock_eq_ok hb
      rfl
    exact ⟨(h.1.takeBlock hb).congr rfl rfl, h.2.push ha ht rfl fun _ => rfl⟩
  plainReturn hy hn hp h := ⟨h.1.giveBack _ _ _ _,
    h.2.giveBack List.mem_cons_self (custody_audited.plainReturn hy hn hp h.2.audited)⟩
  build hl _ := by cases hl
  enqueue hl _ := by cases hl
  releaseAsync hl _ _ := by cases hl
  release hl _ _ := by cases hl

end Untaken

/-! ## Requests of an adaptor -/

/-- A block on loan is as it was: it is still on loan, nobody got it back meanwhile, and it contains
what it did. -/
structure Machine.Spared (x : Loan) (m m' : Machine) : Prop where
  lent : x ∈ onLoan m'.trace
  retakings : retakings x.block m'.trace = retakings x.block m.trace
  contents : m'.memory.contents x.block = m.memory.contents x.block

/-- How a trace tells that a resource got a block back that was released without a stream. -/
def Machine.back (m : Machine) (r : ResourceId) (x : Loan) : Event :=
  if (m.emulated? r).isSome = true then .cached r ⟨defaultStream, x.bytes, x.alignment⟩ x.block
  else .returned x.block x.layout

/-- A block was exchanged for one of another size. The new one begins with what fits of the old one,
and the resource got the old one back, once, as it was handed out. -/
structure Machine.Exchanged (r : ResourceId) (x : Loan) (size : Nat) (b : BlockId)
    (m m' : Machine) : Prop where
  new : b ≠ x.block
  contents : ∀ i < min x.bytes size, m'.memory.contents b i = m.memory.contents x.block i
  retakings : retakings x.block m'.trace = m.back r x :: retakings x.block m.trace

namespace Machine

variable {m m' : Machine} {r : ResourceId} {x : Loan} {b : BlockId} {bytes alignment : Nat}

/-- A resource has its requests from the contract of an emulated one, or straight from its heap. -/
def Adaptable (m : Machine) (r : ResourceId) : Prop :=
  (m.emulated? r).isSome = true ∨ m.backend? r = none

/-- Only the recorded backend is neither. -/
theorem adaptable_of_hostAccessible {y : Resource} (hy : m.resource? r = some y)
    (hkind : y.kind.hostAccessible = true) : m.Adaptable r := by
  cases y with
  | emulated e =>
    left
    rw [emulated?_eq_some.mpr hy]
    rfl
  | recorded heap => cases hkind
  | system heap | lenient heap | devicePinned context heap =>
    right
    unfold backend?
    rw [hy]

/-! ### Allocations -/

/-- What a block contains outlasts a request for another one. -/
theorem contents_allocate (hm : m.Restrained (avoiding b)) (hb : b < m.memory.blocks.length)
    (hc : Covers r m []) (hr : m.Adaptable r) (bytes alignment : Nat) :
    (m.allocate r bytes alignment).2.memory.contents b = m.memory.contents b := by
  rcases hr with he | hd
  · have hkept := Interim.upkeep (c := .allocate r bytes alignment) (avoiding b) r m rfl
    have hserved := hkept.allocate (Call.asks_allocate r bytes alignment) bytes alignment
      ⟨hm, .start hc he⟩
    exact hserved.snd fun h => h.2.contents b hb fun _ _ _ _ => bne_self_eq_false b
  · rcases allocate_direct hd bytes alignment with ⟨f, e⟩ | ⟨c, y, heap, n, -, hn, e⟩
    · rw [e]
    · rw [e]
      obtain ⟨-, -, rfl⟩ := takeBlock_eq_ok hn
      exact SystemMemory.contents_append m.memory _ hb

theorem suffix_allocate (hm : m.Orderly) (r : ResourceId) (bytes alignment : Nat) :
    m.trace <:+ (m.allocate r bytes alignment).2.trace :=
  Upkeep.Served.snd
    ((custody_recalls m.trace).toHandling.allocate r bytes alignment ⟨hm, List.suffix_refl _⟩)
    fun h => h.past

/-- A request for another block leaves a block alone that callers have, if no operation touches
it. -/
theorem spared_allocate (hm : m.Restrained (avoiding x.block)) (ha : m.Audited [] [])
    (hx : x ∈ onLoan m.trace) (hc : Covers r m []) (hr : m.Adaptable r)
    {o : Except Failure BlockId} (h : m.allocate r bytes alignment = (o, m'))
    (hf : FairReleases m'.trace) : m.Spared x m' := by
  have hpast := suffix_allocate hm.orderly r bytes alignment
  have hcontents (hb : x.block < m.memory.blocks.length) :=
    contents_allocate hm hb hc hr bytes alignment
  have hserved := (Untaken.handling x m.trace).allocate r bytes alignment ⟨hm, .start ha hx⟩
  rw [h] at hpast hcontents hserved
  have hthere := ((ha (hf.of_suffix hpast)).apart (List.mem_map_of_mem hx)).1
  cases o with
  | error f => exact ⟨hserved.2.lent hf, hserved.2.retakings hf, hcontents hthere⟩
  | ok c => exact ⟨hserved.2.lent hf, hserved.2.retakings hf, hcontents hthere⟩

/-- A block that was handed out is there, and no caller has it. -/
theorem owned_allocate (ha : m.Audited [] []) (h : m.allocate r bytes alignment = (.ok b, m'))
    (hf : FairReleases m'.trace) : Owned m' [⟨r, ⟨defaultStream, bytes, alignment⟩, b⟩] := by
  have hserved := custody_audited.toHandling.allocate r bytes alignment ha
  rw [h] at hserved
  exact hserved hf

/-- An emulated resource serves a request between two synchronizations of the default stream. -/
theorem allocate_eq_ok (he : (m.emulated? r).isSome = true)
    (h : m.allocate r bytes alignment = (.ok b, m')) :
    ∃ n, (m.synchronize defaultStream).2.allocateAsync r ⟨defaultStream, bytes, alignment⟩ =
      (.ok b, n) ∧ m' = (n.synchronize defaultStream).2 := by
  obtain ⟨e, he⟩ := Option.isSome_iff_exists.mp he
  unfold allocate at h
  rw [backend?_eq_emulatedBackend he] at h
  obtain ⟨n₁, n₂, h₁, h₂, h₃⟩ := Backend.allocate_eq_ok h
  obtain rfl : (m.synchronize defaultStream).2 = n₁ := congrArg Prod.snd h₁
  exact ⟨n₂, h₂, (congrArg Prod.snd h₃).symm⟩

/-- Once a request was served, nothing waits on the default stream. -/
theorem find?_of_allocate (ht : m.Tidy) (he : (m.emulated? r).isSome = true)
    (h : m.allocate r bytes alignment = (.ok b, m')) :
    m'.streams.find? defaultStream = none := by
  obtain ⟨n, hn, rfl⟩ := allocate_eq_ok he h
  have hsync : (m.synchronize defaultStream).2.Tidy := ht.drain .synchronize defaultStream
  have hserved : (m.synchronize defaultStream).2.allocateAsync r
      ⟨defaultStream, bytes, alignment⟩ |>.2.Tidy :=
    Upkeep.Served.snd (custody_needed.toHandling.allocateAsync r
      ⟨defaultStream, bytes, alignment⟩ ⟨⟨hsync.orderly, List.nil_suffix⟩, hsync.needed⟩)
      fun h => ⟨h.1.orderly, h.2⟩
  rw [hn] at hserved
  exact hserved.find?_synchronize defaultStream

/-- A resource stays what it is when it serves a request. -/
theorem adaptable_allocate (hr : m.Adaptable r) (h : m.allocate r bytes alignment = (.ok b, m')) :
    m'.Adaptable r ∧ (m'.emulated? r).isSome = (m.emulated? r).isSome := by
  rcases hr with he | hd
  · obtain ⟨n, hn, rfl⟩ := allocate_eq_ok he h
    have he' := emulated?_drain .synchronize defaultStream (emulated?_allocateAsync hn)
    exact ⟨.inl he', he'.trans he.symm⟩
  · rcases allocate_direct hd bytes alignment with ⟨f, e⟩ | ⟨c, y, heap, n, hy, hn, e⟩
    · rw [e] at h
      cases h
    · rw [e] at h
      cases h
      have hd' : (n.setResource r (y.setHeap heap)).backend? r = none :=
        backend?_setHeap ((backend?_congr (resource?_takeBlock hn r)).trans hd)
          ((resource?_takeBlock hn r).trans hy) heap
      refine ⟨.inr hd', ?_⟩
      rw [emulated?_of_backend?_eq_none hd, emulated?_of_backend?_eq_none hd']

/-! ### Releases -/

theorem synchronizeNoThrow_of_find? {s : StreamId} (h : m.streams.find? s = none) :
    m.synchronizeNoThrow s = m := by
  have hopen : m.openDrain .synchronize s = none := by
    unfold openDrain Registry.existing
    rw [h]
    rfl
  have hsync : m.synchronize s = (.ok (), m) := by
    unfold synchronize drain
    rw [hopen]
  unfold synchronizeNoThrow
  apply Synchronizer.synchronizeNoThrow_of_ok
  change ((m.synchronize s).1.mapError Failure.stream, (m.synchronize s).2) = _
  rw [hsync]
  rfl

/-- Nothing runs when a block is released while the default stream is idle. -/
theorem deallocate_idle (hr : m.Adaptable r)
    (hidle : (m.emulated? r).isSome = true → m.streams.find? defaultStream = none) (x : Loan) :
    (m.deallocate r x.block x.bytes x.alignment).memory = m.memory ∧
      m.trace <:+ (m.deallocate r x.block x.bytes x.alignment).trace ∧
      retakings x.block (m.deallocate r x.block x.bytes x.alignment).trace =
        m.back r x :: retakings x.block m.trace := by
  unfold deallocate back
  rcases hr with he | hd
  · have hquiet := hidle he
    rw [if_pos he]
    obtain ⟨e, he⟩ := Option.isSome_iff_exists.mp he
    rw [backend?_eq_emulatedBackend he]
    have hgave : (emulatedBackend r).deallocate m x.block x.bytes x.alignment =
        m.cacheBlock r e x.block ⟨defaultStream, x.bytes, x.alignment⟩ := by
      change (m.synchronizeNoThrow defaultStream).deallocateAsync r x.block
        ⟨defaultStream, x.bytes, x.alignment⟩ = _
      rw [synchronizeNoThrow_of_find? hquiet]
      unfold deallocateAsync
      rw [he]
    have htrace : (m.cacheBlock r e x.block ⟨defaultStream, x.bytes, x.alignment⟩).trace =
        .logged (.freed defaultStream x.bytes) ::
          .cached r ⟨defaultStream, x.bytes, x.alignment⟩ x.block :: m.trace := rfl
    dsimp only
    rw [hgave]
    refine ⟨rfl, ⟨[_, _], htrace.symm⟩, ?_⟩
    rw [htrace, retakings_cons_of_not_retakes rfl]
    exact retakings_cons_of_retakes (beq_self_eq_true _) m.trace
  · rw [if_neg (by rw [emulated?_of_backend?_eq_none hd]; exact Bool.false_ne_true), hd]
    dsimp only
    refine ⟨m.memory_giveBack r _ _ _, ?_, ?_⟩
    · rw [trace_giveBack]
      exact List.suffix_cons _ _
    rw [trace_giveBack]
    exact retakings_cons_of_retakes (beq_self_eq_true _) m.trace

/-! ### Reallocations -/

theorem reallocate_of_error {a : Adaptor} {l : Layout} {size : Nat} {f : Failure}
    (h : m.allocate a.resource size l.alignment = (.error f, m')) (b : BlockId) :
    a.reallocate m b l size = (none, m') := by
  unfold Adaptor.reallocate Adaptor.allocate
  rw [h]
  rfl

theorem reallocate_of_ok {a : Adaptor} {l : Layout} {size : Nat} {c : BlockId}
    (h : m.allocate a.resource size l.alignment = (.ok c, m')) (b : BlockId) :
    a.reallocate m b l size =
      (some c, Machine.deallocate { m' with memory := m'.memory.copy b c (min l.size size) }
        a.resource b l.size l.alignment) := by
  unfold Adaptor.reallocate Adaptor.allocate
  rw [h]
  rfl

/-- Nothing runs between the copy and the end of the release, so the new block keeps its bytes. -/
theorem exchanged_reallocate {a : Adaptor} {size : Nat} (ht : m.Tidy)
    (hw : m.Waiting (avoiding x.block)) (ha : m.Audited [] []) (hx : x ∈ onLoan m.trace)
    (hc : Covers a.resource m []) (hr : m.Adaptable a.resource)
    (h : a.reallocate m x.block ⟨x.bytes, x.alignment⟩ size = (some b, m'))
    (hf : FairReleases m'.trace) : m.Exchanged a.resource x size b m' := by
  rcases hall : m.allocate a.resource size x.alignment with ⟨f | c, n⟩
  · rw [reallocate_of_error hall] at h
    cases h
  rw [reallocate_of_ok hall] at h
  obtain rfl : c = b := Option.some.inj (congrArg Prod.fst h)
  obtain rfl := congrArg Prod.snd h
  obtain ⟨hadaptable, hsame⟩ := adaptable_allocate hr hall
  let copied : Machine := { n with memory := n.memory.copy x.block c (min x.bytes size) }
  have hidle (he : (n.emulated? a.resource).isSome = true) :
      n.streams.find? defaultStream = none :=
    find?_of_allocate ht (hsame.symm.trans he) hall
  obtain ⟨hmemory, hpast, hback⟩ := deallocate_idle (m := copied) hadaptable hidle x
  have hfair : FairReleases n.trace := hf.of_suffix hpast
  have hspared := spared_allocate ⟨ht.orderly, hw⟩ ha hx hc hr hall hfair
  have howned := owned_allocate ha hall hfair
  have hlast : (⟨a.resource, ⟨defaultStream, size, x.alignment⟩, c⟩ : Parcel) ∈
      n.cached ++ [⟨a.resource, ⟨defaultStream, size, x.alignment⟩, c⟩] :=
    List.mem_append_right _ (List.mem_singleton_self _)
  have hnew : c ≠ x.block := (howned.apart (List.mem_map_of_mem hspared.lent)).2.1 _ hlast
  refine ⟨hnew, fun i hi => ?_, ?_⟩
  · change (copied.deallocate a.resource x.block x.bytes x.alignment).memory.contents c i = _
    rw [hmemory, ← hspared.contents]
    change (n.memory.modify c _).contents c i = _
    rw [SystemMemory.contents_modify n.memory (howned.lt_of_mem hlast), if_pos rfl]
    exact Contents.overlay_of_lt hi
  · refine hback.trans ?_
    have hsameBack : copied.back a.resource x = m.back a.resource x := by
      unfold back
      rw [show (copied.emulated? a.resource).isSome = (m.emulated? a.resource).isSome from hsame]
    rw [hsameBack, ← hspared.retakings]

/-! ### Requests that are refused, and zeroed blocks -/

/-- A resource without streams refuses a request without doing anything. -/
theorem refused_of_error {l : Layout} {f : Failure} (ht : m.Tidy) (hc : Covers r m [])
    (hr : m.Adaptable r) (h : m.allocate r l.size l.alignment = (.error f, m')) :
    (m.backend? r = none → m' = m) ∧ (FairReleases m'.trace →
      ∃ freed, m.Refused r m' freed ∧ (m.Waiting (fun _ a => a.given?.isNone) → freed = [])) := by
  have hdirect (hd : m.backend? r = none) : m' = m := by
    rcases allocate_direct hd l.size l.alignment with ⟨f', e⟩ | ⟨c, y, heap, n, -, -, e⟩
    · exact congrArg Prod.snd (h.symm.trans e)
    · cases h.symm.trans e
  refine ⟨hdirect, fun hf => ?_⟩
  rcases hr with he | hd
  · obtain ⟨freed, hrefused⟩ := exists_refused ht.orderly hc he h hf
    exact ⟨freed, hrefused, hrefused.eq_nil⟩
  · rw [hdirect hd]
    exact ⟨[], .refl r m, fun _ => rfl⟩

theorem allocateZeroed_of_error {a : Adaptor} {l : Layout} {f : Failure}
    (h : m.allocate a.resource l.size l.alignment = (.error f, m')) :
    a.allocateZeroed m l = (none, m') := by
  unfold Adaptor.allocateZeroed Adaptor.allocate
  rw [h]
  rfl

theorem allocateZeroed_of_ok {a : Adaptor} {l : Layout} {c : BlockId}
    (h : m.allocate a.resource l.size l.alignment = (.ok c, m')) :
    a.allocateZeroed m l = (some c, { m' with memory := m'.memory.write c 0 l.size 0 }) := by
  unfold Adaptor.allocateZeroed Adaptor.allocate
  rw [h]
  rfl

/-- A zeroed block is zero, also if it comes from a free list. -/
theorem contents_allocateZeroed {a : Adaptor} {l : Layout} (ha : m.Audited [] [])
    (h : a.allocateZeroed m l = (some b, m')) (hf : FairReleases m'.trace) {i : Nat}
    (hi : i < l.size) : m'.memory.contents b i = 0 := by
  rcases hall : m.allocate a.resource l.size l.alignment with ⟨f | c, n⟩
  · rw [allocateZeroed_of_error hall] at h
    cases h
  · rw [allocateZeroed_of_ok hall] at h
    cases h
    have howned := owned_allocate ha hall hf
    have hthere := howned.lt_of_mem (List.mem_append_right _ (List.mem_singleton_self _))
    change (n.memory.modify b _).contents b i = 0
    rw [SystemMemory.contents_modify n.memory hthere, if_pos rfl]
    exact Contents.fill_of_mem ⟨Nat.zero_le i, (Nat.zero_add l.size).symm ▸ hi⟩

/-! ### All requests -/

/-- Through an adaptor, a refusal is a refusal of the resource, and takes nothing from anybody but
what operations give up meanwhile. A zeroed block is zero although it may have been used before. A
reallocation either leaves the old block alone, or exchanges it. -/
theorem adaptor_sound {env : Environment} {cs : List Call} {m : Machine} {a : Adaptor}
    {y : Resource} (hm : m = (Machine.start env).run cs)
    (hlaw : (Machine.start env).Obeys Accepted cs) (hy : m.resource? a.resource = some y)
    (hkind : y.kind.hostAccessible = true) :
    (∀ l o m', a.allocate m l = (o, m') →
      (o = none ↔ (m.allocate a.resource l.size l.alignment).1.isOk = false) ∧
      (o = none → (m.backend? a.resource = none → m' = m) ∧ (FairReleases m'.trace →
        ∃ freed, m.Refused a.resource m' freed ∧
          (m.Waiting (fun _ act => act.given?.isNone) → freed = [])))) ∧
    (∀ l b m', a.allocateZeroed m l = (some b, m') → FairReleases m'.trace →
      ∀ i < l.size, m'.memory.contents b i = 0) ∧
    ∀ x ∈ onLoan m.trace, m.Waiting (avoiding x.block) →
      ∀ size o m', a.reallocate m x.block ⟨x.bytes, x.alignment⟩ size = (o, m') →
        FairReleases m'.trace →
        (o = none → m.Spared x m') ∧ ∀ b, o = some b → m.Exchanged a.resource x size b m' := by
  subst hm
  have htidy := tidy_run env cs
  have haudited := custody_audited.run hlaw fun _ => Owned.start env
  have hcovers := (Covers.start a.resource env).run hlaw
  have hadaptable := adaptable_of_hostAccessible hy hkind
  generalize (Machine.start env).run cs = m at *
  refine ⟨fun l o m' h => ?_, fun l b m' h hf i hi => contents_allocateZeroed haudited h hf hi,
    fun x hx hw size o m' h hf => ⟨?_, ?_⟩⟩
  · unfold Adaptor.allocate at h
    rcases hall : m.allocate a.resource l.size l.alignment with ⟨f | b, n⟩
    · rw [hall] at h
      cases h
      exact ⟨⟨fun _ => rfl, fun _ => rfl⟩,
        fun _ => refused_of_error htidy hcovers hadaptable hall⟩
    · rw [hall] at h
      cases h
      exact ⟨⟨fun hnone => (by cases hnone), fun hok => (by cases hok)⟩,
        fun hnone => (by cases hnone)⟩
  · rintro rfl
    rcases hall : m.allocate a.resource size x.alignment with ⟨f | c, n⟩
    · rw [reallocate_of_error hall] at h
      cases h
      exact spared_allocate ⟨htidy.orderly, hw⟩ haudited hx hcovers hadaptable hall hf
    · rw [reallocate_of_ok hall] at h
      cases h
  · rintro b rfl
    exact exchanged_reallocate htidy hw haudited hx hcovers hadaptable h hf

/-- A pinned resource with one block on loan, and a cached one that is full of nines. -/
def dirtied : Machine :=
  (start {}).run [.build (.emulated .pinned (.of 32 8 true)), .allocate 0 8 8,
    .write 0 7 8 0, .allocate 0 4 4, .write 1 9 4 0, .release 0 ⟨1, 0, 4, 4⟩,
    .enqueue 0 [.mark "tick"]]

/-- The cached block is handed out as a zeroed one, the other one is exchanged for a larger one, and
it stays where it is if there is no room. -/
theorem adaptor_sound_dirtied :
    let a : Adaptor := ⟨0⟩
    let x : Loan := ⟨0, 0, 8, 8⟩
    (a.allocate dirtied ⟨64, 8⟩).1 = none ∧
      dirtied.Refused 0 (a.allocate dirtied ⟨64, 8⟩).2 [] ∧
      (a.allocateZeroed dirtied ⟨4, 4⟩).1 = some 1 ∧
      (∀ i < 4, (a.allocateZeroed dirtied ⟨4, 4⟩).2.memory.contents 1 i = 0) ∧
      (a.reallocate dirtied 0 ⟨8, 8⟩ 64).1 = none ∧
      dirtied.Spared x (a.reallocate dirtied 0 ⟨8, 8⟩ 64).2 ∧
      (a.reallocate dirtied 0 ⟨8, 8⟩ 16).1 = some 2 ∧
      dirtied.Exchanged 0 x 16 2 (a.reallocate dirtied 0 ⟨8, 8⟩ 16).2 := by
  intro a x
  obtain ⟨hrefused, hzeroed, hmoved⟩ := adaptor_sound (m := dirtied) (a := a) rfl
    (by decide +kernel) (y := (dirtied.resource? 0).get (by decide +kernel)) (by decide +kernel)
    (by decide +kernel)
  have hx : x ∈ onLoan dirtied.trace := by decide +kernel
  have hw : dirtied.Waiting (avoiding 0) := waiting_of_table (by decide +kernel)
  have hnone : (a.allocate dirtied ⟨64, 8⟩).1 = none := by decide +kernel
  have hone : (a.allocateZeroed dirtied ⟨4, 4⟩).1 = some 1 := by decide +kernel
  have hfull : (a.reallocate dirtied 0 ⟨8, 8⟩ 64).1 = none := by decide +kernel
  have htwo : (a.reallocate dirtied 0 ⟨8, 8⟩ 16).1 = some 2 := by decide +kernel
  obtain ⟨freed, hleft, hnil⟩ := ((hrefused _ _ _ rfl).2 hnone).2 (by decide +kernel)
  obtain rfl := hnil (waiting_of_table (by decide +kernel))
  exact ⟨hnone, hleft, hone,
    hzeroed ⟨4, 4⟩ 1 _ (Prod.ext hone rfl) (by decide +kernel), hfull,
    (hmoved x hx hw 64 _ _ rfl (by decide +kernel)).1 hfull, htwo,
    (hmoved x hx hw 16 _ _ rfl (by decide +kernel)).2 2 htwo⟩

/-- A pinned resource whose only block is on loan, and an operation that will release it. -/
def parting : Machine :=
  (start {}).run [.build (.emulated .pinned (.of 16 8 false)), .allocate 0 8 8,
    .enqueue 0 [.free 0 0 ⟨0, 8, 8⟩]]

/-- A request that is refused runs the operation first, and the block is not on loan any more. -/
theorem live_of_refused_parting :
    ((⟨0⟩ : Adaptor).allocate parting ⟨64, 8⟩).1 = none ∧
      FairReleases ((⟨0⟩ : Adaptor).allocate parting ⟨64, 8⟩).2.trace ∧
      parting.liveBytes 0 = 8 ∧ onLoan parting.trace = [⟨0, 0, 8, 8⟩] ∧
      ((⟨0⟩ : Adaptor).allocate parting ⟨64, 8⟩).2.liveBytes 0 = 0 ∧
      onLoan ((⟨0⟩ : Adaptor).allocate parting ⟨64, 8⟩).2.trace = [] := by
  refine ⟨?_, ?_, ?_, ?_, ?_, ?_⟩ <;> decide +kernel

end Machine

end StreamMemory
