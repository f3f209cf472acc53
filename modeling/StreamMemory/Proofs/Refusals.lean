import StreamMemory.Proofs.Coverage
import StreamMemory.Proofs.Restraint

/-!
# What a request leaves alone

A request for a block may run operations: what waits on the default stream runs before a synchronous
request is looked at, and a release pass runs what waits on the streams of cached blocks. Operations
may release and write blocks. Apart from that, callers keep what they have until the request is
answered, and it contains what it did; and if the request fails, the bytes in use are what they
were.
-/

set_option autoImplicit false

namespace StreamMemory

/-- The block that an act gives up. -/
def Act.given? : Act → Option Loan
  | free r b k => some ⟨b, r, k.bytes, k.alignment⟩
  | _ => none

/-- Whether an event changes what callers have. -/
def Event.trades : Event → Bool
  | lent _ | released _ => true
  | _ => false

theorem Event.trades_of_not_moves {e : Event} (h : e.moves = false) : e.trades = false := by
  cases e <;> first | rfl | cases h

theorem lents_cons_of_not_trades {e : Event} (h : e.trades = false) (trace : List Event) :
    lents (e :: trace) = lents trace := by
  cases e <;> first | rfl | cases h

theorem releases_cons_of_not_trades {e : Event} (h : e.trades = false) (trace : List Event) :
    releases (e :: trace) = releases trace := by
  cases e <;> first | rfl | cases h

theorem onLoan_cons_of_not_trades {e : Event} (h : e.trades = false) (trace : List Event) :
    onLoan (e :: trace) = onLoan trace := by
  cases e <;> first | rfl | cases h

theorem Covers.emit {r : ResourceId} {m : Machine} {hand : List Parcel} (h : Covers r m hand)
    {e : Event} (he : e.trades = false) : Covers r (m.emit e) hand := by
  have hsame : onLoan (m.emit e).trace = onLoan m.trace := onLoan_cons_of_not_trades he m.trace
  refine h.mono (rfl : (m.emit e).resources = m.resources) fun hf => ⟨hf.tail, Nat.le_of_eq ?_⟩
  unfold Machine.out
  rw [hsame]

namespace SystemMemory

/-- A block that was there before another one was handed out contains what it did. -/
theorem contents_append (m : SystemMemory) (x : Block) {b : BlockId} (hb : b < m.blocks.length) :
    SystemMemory.contents { m with blocks := m.blocks ++ [x] } b = m.contents b := by
  unfold contents
  dsimp only
  rw [List.getElem?_append_left hb]

/-- To change one block leaves the others alone. -/
theorem contents_modify_of_ne (m : SystemMemory) {b c : BlockId} (h : c ≠ b)
    (f : Contents → Contents) : (m.modify b f).contents c = m.contents c := by
  have hne : ¬ b = c := Ne.symm h
  simp only [contents, modify, List.getElem?_modify]
  cases m.blocks[c]? <;> simp [hne]

end SystemMemory

/-- The bytes of a resource that are in hand. -/
def inHand (r : ResourceId) (hand : List Parcel) : Nat :=
  total (Loan.share r) (hand.map Parcel.loan)

theorem inHand_cons_of_ne {q r : ResourceId} (h : q ≠ r) (k : BlockKey) (b : BlockId)
    (hand : List Parcel) : inHand r (⟨q, k, b⟩ :: hand) = inHand r hand := by
  unfold inHand
  rw [List.map_cons, total_cons, Loan.share_of_ne h, Nat.zero_add]

theorem inHand_cons_self (r : ResourceId) (k : BlockKey) (b : BlockId) (hand : List Parcel) :
    inHand r (⟨r, k, b⟩ :: hand) = k.bytes + inHand r hand := by
  unfold inHand
  have hshare : Loan.share r (Parcel.loan ⟨r, k, b⟩) = k.bytes := if_pos rfl
  rw [List.map_cons, total_cons, hshare]

/-! ## While a request is served -/

/-- Operations gave up some blocks since some moment, by acts that are allowed. The bytes in use of
a resource are less by these, and more by what is in hand. -/
structure Given (allowed : StreamId → Act → Bool) (r : ResourceId) (past m : Machine)
    (hand : List Parcel) (freed : List Loan) : Prop where
  releases : releases m.trace = freed ++ releases past.trace
  onLoan : (onLoan past.trace).Perm (freed ++ onLoan m.trace)
  liveBytes : m.liveBytes r + total (Loan.share r) freed = past.liveBytes r + inHand r hand
  allowed : ∀ x ∈ freed, ∃ s a, allowed s a = true ∧ a.given? = some x

/-- What serving a request does to what callers have: it hands out nothing and writes nothing, but
operations may do what they are allowed to do. -/
structure Interim (allowed : StreamId → Act → Bool) (r : ResourceId) (past m : Machine)
    (hand : List Parcel) : Prop where
  covers : Covers r m hand
  there : (m.emulated? r).isSome = true
  lents : lents m.trace = lents past.trace
  blocks : past.memory.blocks.length ≤ m.memory.blocks.length
  contents : ∀ b < past.memory.blocks.length,
    (∀ s byte length offset, allowed s (.write b byte length offset) = false) →
      m.memory.contents b = past.memory.contents b
  given : FairReleases m.trace → ∃ freed, Given allowed r past m hand freed

namespace Interim

variable {allowed : StreamId → Act → Bool} {r q : ResourceId} {past m m' : Machine}
variable {hand hand' : List Parcel} {e e' : Emulated} {k : BlockKey} {b : BlockId}

theorem start (hc : Covers r m []) (he : (m.emulated? r).isSome = true) :
    Interim allowed r m m [] :=
  ⟨hc, he, rfl, Nat.le_refl _, fun _ _ _ => rfl, fun _ =>
    ⟨[], rfl, List.Perm.refl _, rfl, fun _ hx => absurd hx List.not_mem_nil⟩⟩

theorem keep (h : Interim allowed r past m hand) (hc : Covers r m' hand')
    (hthere : (m'.emulated? r).isSome = true) (hm : m'.memory = m.memory)
    (ht : m'.trace = m.trace)
    (hlive : FairReleases m.trace →
      m'.liveBytes r + inHand r hand = m.liveBytes r + inHand r hand') :
    Interim allowed r past m' hand' := by
  refine ⟨hc, hthere, ht ▸ h.lents, hm ▸ h.blocks, hm ▸ h.contents, fun hf => ?_⟩
  rw [ht] at hf
  obtain ⟨freed, hreleases, honLoan, hbytes, hallowed⟩ := h.given hf
  have hsame := hlive hf
  refine ⟨freed, ht ▸ hreleases, ht ▸ honLoan, ?_, hallowed⟩
  omega

theorem congr (h : Interim allowed r past m hand) (hr : m'.resources = m.resources)
    (hm : m'.memory = m.memory) (ht : m'.trace = m.trace) : Interim allowed r past m' hand := by
  have he : m'.emulated? r = m.emulated? r := Machine.emulated?_congr hr r
  refine h.keep (h.covers.congr hr ht) (he ▸ h.there) hm ht fun _ => ?_
  unfold Machine.liveBytes
  rw [he]

theorem emit (h : Interim allowed r past m hand) {v : Event} (he : v.trades = false) :
    Interim allowed r past (m.emit v) hand := by
  refine ⟨h.covers.emit he, h.there, (lents_cons_of_not_trades he _).trans h.lents, h.blocks,
    h.contents, fun hf => ?_⟩
  obtain ⟨freed, hreleases, honLoan, hbytes, hallowed⟩ := h.given hf.tail
  refine ⟨freed, (releases_cons_of_not_trades he _).trans hreleases, ?_, hbytes, hallowed⟩
  rw [show StreamMemory.onLoan (m.emit v).trace = StreamMemory.onLoan m.trace from
    onLoan_cons_of_not_trades he m.trace]
  exact honLoan

theorem note (h : Interim allowed r past m hand) {v : Event} (he : v.moves = false) :
    Interim allowed r past (m.emit v) hand :=
  h.emit (Event.trades_of_not_moves he)

/-- An operation gives a block up, which goes into a hand. -/
theorem giveUp (h : Interim allowed r past m hand) {p : Parcel} {s : StreamId} {a : Act}
    (ha : allowed s a = true) (hp : a.given? = some p.loan) :
    Interim allowed r past (m.emit (.released p.loan)) (p :: hand) := by
  refine ⟨h.covers.giveUp (Nat.le_refl _), h.there, h.lents, h.blocks, h.contents, fun hf => ?_⟩
  obtain ⟨freed, hreleases, honLoan, hbytes, hallowed⟩ := h.given hf.2
  have hshare : inHand r (p :: hand) = p.loan.share r + inHand r hand := total_cons _ _ _
  refine ⟨p.loan :: freed, congrArg (p.loan :: ·) hreleases, ?_, ?_, ?_⟩
  · have herase := (List.perm_cons_erase hf.1).append_left freed
    exact honLoan.trans (herase.trans List.perm_middle)
  · have hsame : (m.emit (.released p.loan)).liveBytes r = m.liveBytes r := rfl
    rw [total_cons, hsame, hshare]
    omega
  · exact List.forall_mem_cons.mpr ⟨⟨s, a, ha, hp⟩, hallowed⟩

theorem setEmulated (h : Interim allowed r past m hand) (he : m.emulated? q = some e)
    (hc : Covers r (m.setEmulated q e') hand')
    (hlive : q = r → FairReleases m.trace →
      e'.live.current + inHand r hand = e.live.current + inHand r hand')
    (hother : q ≠ r → inHand r hand' = inHand r hand) :
    Interim allowed r past (m.setEmulated q e') hand' := by
  have hset := Machine.emulated?_setEmulated he e' r
  by_cases hq : q = r
  · subst hq
    rw [if_pos rfl] at hset
    refine h.keep hc (by rw [hset]; rfl) rfl rfl fun hf => ?_
    rw [Machine.liveBytes_of_some hset, Machine.liveBytes_of_some he]
    exact hlive rfl hf
  · rw [if_neg (Ne.symm hq)] at hset
    refine h.keep hc (hset ▸ h.there) rfl rfl fun _ => ?_
    rw [hother hq]
    unfold Machine.liveBytes
    rw [hset]

theorem cache (h : Interim allowed r past m (⟨q, k, b⟩ :: hand)) (he : m.emulated? q = some e) :
    Interim allowed r past (m.cacheBlock q e b k) hand := by
  have hset : Interim allowed r past (m.setEmulated q (e.cache k b)) hand := by
    refine h.setEmulated he (h.covers.shelve he) ?_ fun hq => (inHand_cons_of_ne hq k b hand).symm
    rintro rfl hf
    have hbytes := h.covers.bytes_le hf he
    rw [inHand_cons_self]
    change e.live.current - k.bytes + (k.bytes + inHand q hand) = e.live.current + inHand q hand
    omega
  have hcached := hset.emit (v := .cached q k b) rfl
  exact hcached.emit rfl

/-- Contents may be written where that is allowed, and new blocks may come. -/
theorem remember (h : Interim allowed r past m hand) (memory : SystemMemory)
    (hlen : m.memory.blocks.length ≤ memory.blocks.length)
    (hcontents : ∀ b < m.memory.blocks.length,
      (∀ s byte length offset, allowed s (.write b byte length offset) = false) →
        memory.contents b = m.memory.contents b) :
    Interim allowed r past { m with memory } hand := by
  refine ⟨h.covers.congr rfl rfl, h.there, h.lents, Nat.le_trans h.blocks hlen,
    fun b hb hwritten => ?_, fun hf => ?_⟩
  · exact (hcontents b (Nat.lt_of_lt_of_le hb h.blocks) hwritten).trans (h.contents b hb hwritten)
  · obtain ⟨freed, hgiven⟩ := h.given hf
    exact ⟨freed, hgiven.releases, hgiven.onLoan, hgiven.liveBytes, hgiven.allowed⟩

theorem write (h : Interim allowed r past m hand) {s : StreamId} {byte : UInt8}
    {length offset : Nat} (ha : allowed s (.write b byte length offset) = true) :
    Interim allowed r past { m with memory := m.memory.write b byte length offset } hand := by
  refine h.remember _ (Nat.le_of_eq (SystemMemory.length_blocks_modify _ _ _).symm)
    fun c _ hwritten => SystemMemory.contents_modify_of_ne _ ?_ _
  rintro rfl
  exact Bool.noConfusion (ha.symm.trans (hwritten s byte length offset))

theorem takeBlock (h : Interim allowed r past m hand) {heap heap' : Heap} {bytes alignment : Nat}
    (hb : m.takeBlock q heap bytes alignment = .ok (b, heap', m')) :
    Interim allowed r past m' hand := by
  obtain ⟨-, -, rfl⟩ := Machine.takeBlock_eq_ok hb
  refine (h.emit (v := .obtained ⟨b, q, bytes, alignment⟩) rfl).remember _ ?_
    fun c hc _ => SystemMemory.contents_append m.memory _ hc
  rw [List.length_append]
  exact Nat.le_add_right _ _

theorem reuse (h : Interim allowed r past m hand) (he : m.emulated? q = some e)
    (hu : e.reuse? k = some (b, e')) :
    Interim allowed r past (m.setEmulated q e') (⟨q, k, b⟩ :: hand) := by
  have hc := h.covers.reuse he hu
  refine h.setEmulated he hc ?_ fun hq => inHand_cons_of_ne hq k b hand
  rintro rfl hf
  have hroom := (h.covers.covered hf e he).room
  have hsum := Emulated.sum_of_le (Emulated.room_of_reuse (h.covers.sound e he) hroom hu)
  obtain ⟨⟨b', g⟩, -, hbe⟩ := Option.map_eq_some_iff.mp hu
  cases hbe
  rw [inHand_cons_self, Gauge.current_add, hsum]
  exact Nat.add_assoc _ _ _

theorem refuse (h : Interim allowed r past m hand) (he : m.emulated? q = some e) {bytes : Nat}
    (hr : e.reserve? bytes = some e') :
    Interim allowed r past (m.setEmulated q (e'.unreserve bytes)) hand := by
  refine h.setEmulated he (h.covers.refuse he hr) (fun _ _ => ?_) fun _ => rfl
  rw [Emulated.current_unreserve hr]

theorem fresh (h : Interim allowed r past m hand) (he : m.emulated? q = some e)
    (hr : e.reserve? k.bytes = some e') {heap : Heap}
    (hb : m.takeBlock q e'.heap k.bytes k.alignment = .ok (b, heap, m')) :
    Interim allowed r past (m'.setEmulated q (e'.allocated heap)) (⟨q, k, b⟩ :: hand) := by
  have hc := h.covers.fresh he hr hb
  have he' := (Machine.emulated?_takeBlock hb q).trans he
  obtain ⟨rfl, hfits⟩ := Emulated.reserve?_eq_some hr
  refine (h.takeBlock hb).setEmulated he' hc ?_ fun hq => inHand_cons_of_ne hq k b hand
  rintro rfl -
  change e.live.sum k.bytes + _ = _
  rw [inHand_cons_self, Emulated.sum_of_fits hfits]
  exact Nat.add_assoc _ _ _

/-- What happens to the heap of a resource does not concern what callers have. -/
theorem setHeap (h : Interim allowed r past m hand) {x : Resource} (hx : m.resource? q = some x)
    (heap : Heap) (hc : Covers r (m.setResource q (x.setHeap heap)) hand')
    (hhand : inHand r hand' = inHand r hand) :
    Interim allowed r past (m.setResource q (x.setHeap heap)) hand' := by
  obtain ⟨f, hf⟩ := Option.isSome_iff_exists.mp h.there
  obtain ⟨heap', hset⟩ := Machine.exists_emulated?_setHeap hf hx heap
  refine h.keep hc (by rw [hset]; rfl) rfl rfl fun _ => ?_
  rw [hhand, Machine.liveBytes_of_some hset, Machine.liveBytes_of_some hf]

theorem giveBack (h : Interim allowed r past m hand) (q : ResourceId) (b : BlockId)
    (bytes alignment : Nat) : Interim allowed r past (m.giveBack q b bytes alignment) hand := by
  have hback := h.emit (v := .returned b (Heap.layout bytes alignment)) rfl
  rcases m.giveBack_eq q b bytes alignment with ⟨-, e⟩ | ⟨x, hx, e⟩
  · rw [e]
    exact hback
  · rw [e]
    exact hback.setHeap hx _ (hback.covers.setHeap hx _) rfl

theorem respected (allowed : StreamId → Act → Bool) (r : ResourceId) (past : Machine)
    (hand : List Parcel) : Respected allowed fun m => Interim allowed r past m hand where
  streams _ h := h.congr rfl rfl rfl
  emit he h := h.note he
  write _ _ _ _ _ ha h := h.write ha
  free {m} s q b k ha h := by
    rcases m.freeBlock_eq s q b k with hf | ⟨e, he, hf⟩
    · rw [hf]
      exact h.note rfl
    · have hreleased := h.giveUp (p := ⟨q, k, b⟩) ha rfl
      rw [hf]
      exact (hreleased.cache he).note rfl

theorem releaseCached (hm : m.Restrained allowed) (h : Interim allowed r past m hand)
    (he : m.emulated? q = some e) : Interim allowed r past (m.releaseCached q).2 hand := by
  have hbegun : Interim allowed r past (m.setEmulated q e.beginPass) hand := by
    exact h.setEmulated he (h.covers.beginPass he) (fun _ _ => rfl) fun _ => rfl
  unfold Machine.releaseCached
  rw [he]
  exact ((respected allowed r past hand).releaseLists (r := q)
    (fun b bytes alignment hn => hn.giveBack q b bytes alignment)
    (hm.setEmulated q e.beginPass) _ hbegun).note rfl

/-- A request for a block runs what waits, and hands out nothing before it is answered. -/
theorem upkeep (allowed : StreamId → Act → Bool) (r : ResourceId) (past : Machine) {c : Call}
    (hc : c.allocates = true) : Upkeep (fun _ _ => True) False c
      fun m hand => m.Restrained allowed ∧ Interim allowed r past m hand where
  note he hw h := ⟨h.1.note hw, h.2.note (Event.moves_of_idle he)⟩
  frame hwrites hs hr ht _ _ h := by
    refine ⟨h.1.congr hs ht, h.2.congr hr (hwrites.resolve_left fun hw => ?_) ht⟩
    rw [Call.writes_of_allocates hc] at hw
    cases hw
  drain request s h := (respected allowed r past _).drain h.1 request s h.2
  reuse _ he hu h := ⟨(h.1.setEmulated _ _).note rfl, (h.2.reuse he hu).note rfl⟩
  refuse _ he hr h := ⟨h.1.setEmulated _ _, h.2.refuse he hr⟩
  fresh _ he hr hb h :=
    ⟨((h.1.takeBlock hb).setEmulated _ _).note rfl, (h.2.fresh he hr hb).note rfl⟩
  cache he h := ⟨h.1.cacheBlock _ _ _ _, h.2.cache he⟩
  pass _ he h := ⟨h.1.releaseCached _, h.2.releaseCached h.1 he⟩
  drop hd _ _ := by
    subst hd
    cases hc
  plainFresh {m m' hand q heap b x k} _ hx hn hb h := by
    have hx' := (Machine.resource?_takeBlock hb q).trans hx
    have hq : q ≠ r := by
      rintro rfl
      obtain ⟨e, he⟩ := Option.isSome_iff_exists.mp h.2.there
      cases Option.some.inj ((Machine.emulated?_eq_some.mp he).symm.trans hx)
      cases hn
    exact ⟨(h.1.takeBlock hb).congr rfl rfl, (h.2.takeBlock hb).setHeap hx' heap
      ((h.2.covers.takeBlock hb).holdPlain hx' hn heap k b) (inHand_cons_of_ne hq k b hand)⟩
  plainReturn {m hand q x p} hx hn hp h := by
    have hq : p.resource ≠ r := by
      rintro hr
      obtain rfl := hp.resolve_right id
      obtain ⟨e, he⟩ := Option.isSome_iff_exists.mp h.2.there
      rw [← hr] at he
      cases Option.some.inj ((Machine.emulated?_eq_some.mp he).symm.trans hx)
      cases hn
    have hlet : Interim allowed r _ m hand :=
      h.2.keep h.2.covers.letGo h.2.there rfl rfl fun _ => by
        rw [show inHand r (p :: hand) = inHand r hand from inHand_cons_of_ne hq p.key p.block hand]
    exact ⟨h.1.giveBack _ _ _ _, hlet.giveBack _ _ _ _⟩
  build hd _ _ := by
    subst hd
    cases hc
  createStream hd _ := by
    subst hd
    cases hc
  enqueue hd _ _ := by
    subst hd
    cases hc
  releaseAsync hd _ _ _ := by
    subst hd
    cases hc
  release hd _ _ _ := by
    subst hd
    cases hc

end Interim

/-! ## Requests that fail -/

theorem Operation.keeps_any (s : StreamId) (op : Operation) :
    keeps (fun _ _ => true) s op = true := by
  induction op using nested_induction generalizing s with
  | nil => rfl
  | enqueue t acts rest ihacts ih =>
    exact keeps_cons_iff.mpr ⟨actKeeps_enqueue_iff.mpr ⟨rfl, ihacts t⟩, ih s⟩
  | other a rest ha ih => exact keeps_cons_iff.mpr ⟨actKeeps_of_ne_enqueue ha, ih s⟩

/-- What a failed request leaves of what callers had. Some blocks may have been given up meanwhile,
all of them by operations that waited or were enqueued by such operations. Nothing else changed. -/
structure Machine.Refused (r : ResourceId) (m m' : Machine) (freed : List Loan) : Prop where
  lents : lents m'.trace = lents m.trace
  releases : releases m'.trace = freed ++ releases m.trace
  onLoan : (onLoan m.trace).Perm (freed ++ onLoan m'.trace)
  liveBytes : m'.liveBytes r + total (Loan.share r) freed = m.liveBytes r
  byOperations : ∀ allowed, m.Waiting allowed → ∀ x ∈ freed,
    ∃ s a, allowed s a = true ∧ a.given? = some x

namespace Machine

variable {m m' : Machine} {r : ResourceId}

theorem Refused.refl (r : ResourceId) (m : Machine) : m.Refused r m [] :=
  ⟨rfl, rfl, List.Perm.refl _, rfl, fun _ _ _ hx => absurd hx List.not_mem_nil⟩

/-- If no operation that waits gives a block up, callers have what they had. -/
theorem Refused.eq_nil {freed : List Loan} (h : m.Refused r m' freed)
    (hw : m.Waiting fun _ a => a.given?.isNone) : freed = [] := by
  rw [List.eq_nil_iff_forall_not_mem]
  intro x hx
  obtain ⟨s, a, ha, hgiven⟩ := h.byOperations _ hw x hx
  rw [hgiven] at ha
  cases ha

theorem interim_of_error (hm : m.Orderly) (hc : Covers r m []) (he : (m.emulated? r).isSome = true)
    {bytes alignment : Nat} {f : Failure} (hfailed : m.allocate r bytes alignment = (.error f, m'))
    {allowed : StreamId → Act → Bool} (hw : m.Waiting allowed) : Interim allowed r m m' [] := by
  have hserved := (Interim.upkeep (c := .allocate r bytes alignment) allowed r m rfl).allocate
    (Call.asks_allocate r bytes alignment) bytes alignment ⟨⟨hm, hw⟩, .start hc he⟩
  rw [hfailed] at hserved
  exact hserved.2

theorem exists_refused (hm : m.Orderly) (hc : Covers r m []) (he : (m.emulated? r).isSome = true)
    {bytes alignment : Nat} {f : Failure} (hfailed : m.allocate r bytes alignment = (.error f, m'))
    (hf : FairReleases m'.trace) : ∃ freed, m.Refused r m' freed := by
  have hany : m.Waiting fun _ _ => true := fun s op _ => op.keeps_any s
  have hm' := interim_of_error hm hc he hfailed hany
  obtain ⟨freed, hgiven⟩ := hm'.given hf
  refine ⟨freed, hm'.lents, hgiven.releases, hgiven.onLoan, hgiven.liveBytes, fun allowed hw => ?_⟩
  -- what was given up does not depend on how much is known of the operations
  obtain ⟨freed', hgiven'⟩ := (interim_of_error hm hc he hfailed hw).given hf
  obtain rfl : freed' = freed :=
    List.append_cancel_right (hgiven'.releases.symm.trans hgiven.releases)
  exact hgiven'.allowed

end Machine

end StreamMemory
