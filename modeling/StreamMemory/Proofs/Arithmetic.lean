import StreamMemory.Proofs.Histories
import StreamMemory.Proofs.Passes
import StreamMemory.Proofs.SizeSums

/-!
# Sums and differences of sizes are exact

As long as everything that is given up was on loan, no sum or difference that is not tested leaves
the sizes: the accounts of each resource fit into its capacity at every moment, in the midst of
requests, of drains and of release passes.
-/

set_option autoImplicit false

namespace StreamMemory

/-! ## One resource -/

namespace Emulated.Sized

variable {e e' : Emulated} {owed bytes : Nat} {k : BlockKey} {b : BlockId}

theorem reuseSums_right (h : e.Sized owed) (hu : e.reuse? k = some (b, e')) :
    ∀ x ∈ e.reuseSums e' k.bytes, x.Right := by
  have hsum := sum_of_le (room_of_reuse h.sound h.room hu)
  have hlt := h.footprint_lt
  have hlt' := (h.reuse hu).footprint_lt
  have hcounted := h.sound.counted
  have hcounted' := (h.reuse hu).sound.counted
  obtain ⟨⟨b', g⟩, hpop, hbe⟩ := Option.map_eq_some_iff.mp hu
  cases hbe
  have htotal := FreeLists.totalBytes_pop h.sound hpop
  dsimp only at hlt' hcounted'
  refine List.forall_mem_cons.mpr ⟨?_, List.forall_mem_singleton.mpr ?_⟩
  · apply Computed.difference_right
    · dsimp only
      omega
    · dsimp only
      omega
  · apply Computed.sum_right hsum
    omega

theorem cacheSums_right (h : e.Sized owed) (hk : k.bytes ≤ e.live.current) (b : BlockId) :
    ∀ x ∈ e.cacheSums (e.cache k b) k.bytes, x.Right := by
  have hlt := (h.cache hk b).footprint_lt
  have hcached : (e.cache k b).free.cachedBytes < sizeLimit := by omega
  have hlive : (e.cache k b).live.current < sizeLimit := by omega
  exact List.forall_mem_cons.mpr ⟨Computed.sum_right rfl hcached,
    List.forall_mem_singleton.mpr (Computed.difference_right (Nat.sub_add_cancel hk) hlive)⟩

theorem reserveSums_right (h : e.Sized owed) (bytes : Nat) :
    ∀ x ∈ e.reserveSums bytes, x.Right := by
  refine List.forall_mem_cons.mpr ⟨Computed.sum_right rfl h.footprint_lt, ?_⟩
  split
  · rename_i e' hr
    obtain ⟨rfl, hfits⟩ := reserve?_eq_some hr
    exact List.forall_mem_singleton.mpr
      (Computed.sum_right (sum_of_fits hfits) (Nat.mod_lt _ (Nat.two_pow_pos 64)))
  · exact List.forall_mem_nil _

/-- The heap has room for what was reserved, and if it refuses, what was reserved is in use. -/
theorem takeReservedSums_right (h : e.Sized 0) (hr : e.reserve? k.bytes = some e') (m : Machine)
    (r : ResourceId) : ∀ x ∈ m.takeReservedSums r e' k, x.Right := by
  have hcapacity := e.config.capacity_lt
  have hheap := h.heap_eq
  have hlt := h.footprint_lt
  have hcurrent := current_unreserve hr
  obtain ⟨rfl, hfits⟩ := reserve?_eq_some hr
  have hsum := sum_of_fits hfits
  unfold footprint at hfits
  unfold Machine.takeReservedSums
  split
  · refine List.forall_mem_singleton.mpr (Computed.difference_right ?_ ?_)
    · rw [hcurrent]
      exact hsum.symm
    · rw [hcurrent]
      omega
  · rename_i hb
    obtain ⟨-, rfl, -⟩ := Machine.takeBlock_eq_ok hb
    refine List.forall_mem_singleton.mpr
      (Computed.sum_right (Gauge.sum_of_lt ?_) (Nat.mod_lt _ (Nat.two_pow_pos 64)))
    dsimp only
    omega

theorem freshSums_right (h : e.Sized 0) (m : Machine) (r : ResourceId) (k : BlockKey) :
    ∀ x ∈ m.freshSums r e k, x.Right := by
  refine List.forall_mem_append.mpr ⟨h.reserveSums_right k.bytes, ?_⟩
  split
  · rename_i hr
    exact h.takeReservedSums_right hr m r
  · exact List.forall_mem_nil _

end Emulated.Sized

/-! ## Drains -/

theorem Machine.Sized.deallocateAsyncSums_right {m : Machine} {hand pass : List Parcel}
    {r : ResourceId} {k : BlockKey} {b : BlockId} (h : m.Sized (⟨r, k, b⟩ :: hand) pass)
    (hf : FairReleases m.trace) : ∀ x ∈ m.deallocateAsyncSums r b k, x.Right := by
  unfold Machine.deallocateAsyncSums
  split
  · rename_i e he
    exact (h.sized hf r e he).cacheSums_right ((h.covers r).bytes_le hf he) b
  · exact List.forall_mem_nil _

namespace Run

variable {run next : Run} {hand pass : List Parcel}

/-- The act that releases a block notes this first. -/
theorem stepSums_right (h : run.machine.Sized hand pass) (hs : run.step = .inr next)
    (hf : FairReleases next.machine.trace) : ∀ x ∈ run.stepSums, x.Right := by
  unfold stepSums
  split
  · rename_i r b k rest hrest
    have hnext : next.machine = run.machine.freeBlock run.frame.stream r b k := by
      simp only [step, hrest] at hs
      cases hs
      rfl
    rw [hnext] at hf
    cases he : run.machine.emulated? r with
    | none =>
      unfold Machine.deallocateAsyncSums
      rw [he]
      exact List.forall_mem_nil _
    | some e =>
      unfold Machine.freeBlock at hf
      rw [he] at hf
      -- The act's report, its log entry and the cached block come after the release.
      exact (h.giveUp ⟨r, k, b⟩).deallocateAsyncSums_right hf.tail.tail.tail
  · exact List.forall_mem_nil _

theorem sums_right (h : run.machine.Sized hand pass) (hf : FairReleases run.finish.2.trace) :
    ∀ x ∈ run.sums, x.Right := by
  induction run using finish.induct with
  | case1 run done hs =>
    rw [sums_of_inl hs]
    exact List.forall_mem_nil _
  | case2 run next hs ih =>
    rw [finish_of_inr hs] at hf
    rw [sums_of_inr hs]
    exact List.forall_mem_append.mpr ⟨stepSums_right h hs (fairReleases_of_finish hf),
      ih ((Machine.Sized.drainStable hand pass).step h hs) hf⟩

end Run

namespace Machine

variable {m : Machine} {hand pass : List Parcel} {r : ResourceId} {e : Emulated} {heap : Heap}
variable {request : DrainRequest} {s : StreamId}

theorem Sized.drainSums_right (h : m.Sized hand pass)
    (hf : FairReleases (m.drain request s).2.trace) : ∀ x ∈ m.drainSums request s, x.Right := by
  unfold drain at hf
  unfold drainSums
  split
  · exact List.forall_mem_nil _
  · rename_i frame n hopen
    rw [hopen] at hf
    exact Run.sums_right ((Sized.drainStable hand pass).openDrain hopen h) hf

/-! ## Heaps in passes -/

theorem heapOf_of_some (he : m.emulated? r = some e) : m.heapOf r heap = e.heap := by
  unfold heapOf
  rw [he]
  rfl

theorem heapOf_of_none (he : m.emulated? r = none) : m.heapOf r heap = heap := by
  unfold heapOf
  rw [he]
  rfl

theorem heapOf_setEmulated {q : ResourceId} (he : m.emulated? q = some e) (e' : Emulated)
    (hh : e'.heap = e.heap) : (m.setEmulated q e').heapOf r heap = m.heapOf r heap := by
  by_cases hq : r = q
  · rw [hq, heapOf_of_some he, heapOf_of_some (emulated?_setEmulated_self he e'), hh]
  · unfold heapOf
    rw [emulated?_setEmulated he, if_neg hq]

/-- No operation does anything to a heap. -/
theorem drainStable_heapOf (r : ResourceId) (last heap : Heap) :
    DrainStable fun m => m.heapOf r last = heap where
  streams _ h := h
  emit _ h := h
  contents _ _ h := h
  free {m} s q b k h := by
    rcases m.freeBlock_eq s q b k with hf | ⟨e, he, hf⟩
    · rw [hf]
      exact h
    · rw [hf]
      have hcached : (m.setEmulated q (e.cache k b)).heapOf r last = m.heapOf r last :=
        heapOf_setEmulated he _ rfl
      exact hcached.trans h

theorem heapOf_giveBack (m : Machine) (r : ResourceId) (last : Heap) (b : BlockId)
    (bytes alignment : Nat) :
    (m.giveBack r b bytes alignment).heapOf r (last.giveBack bytes) =
      (m.heapOf r last).giveBack bytes := by
  cases he : m.emulated? r with
  | some e => rw [heapOf_of_some he, heapOf_of_some (emulated?_giveBack he b bytes alignment)]
  | none =>
    have hnone : (m.giveBack r b bytes alignment).emulated? r = none := by
      rcases m.giveBack_eq r b bytes alignment with ⟨-, hback⟩ | ⟨x, hx, -⟩
      · rw [hback]
        exact he
      · exact ((plain_of_emulated?_eq_none hx he).giveBack b bytes alignment).emulated?
    rw [heapOf_of_none he, heapOf_of_none hnone]

theorem heapOf_synchronizeNoThrow (m : Machine) (r : ResourceId) (last : Heap) (s : StreamId) :
    (m.synchronizeNoThrow s).heapOf r last = m.heapOf r last :=
  (drainStable_heapOf r last _).synchronizeNoThrow s rfl

theorem heapOf_releaseKey (m : Machine) (r : ResourceId) (last : Heap) (k : BlockKey)
    (bs : List BlockId) :
    (m.releaseKey r k bs).heapOf r (last.giveBack (k.bytes * bs.length)) =
      (m.heapOf r last).giveBack (k.bytes * bs.length) := by
  rw [← m.heapOf_synchronizeNoThrow r last k.stream]
  unfold releaseKey
  generalize m.synchronizeNoThrow k.stream = n
  induction bs generalizing n last with
  | nil => rfl
  | cons b bs ih =>
    rw [List.length_cons, Nat.mul_succ, Nat.add_comm, ← Heap.giveBack_giveBack,
      ← Heap.giveBack_giveBack, ← heapOf_giveBack n r last b k.bytes k.alignment]
    exact ih (last.giveBack k.bytes) (n.giveBack r b k.bytes k.alignment)

end Machine

/-- A heap accounts for so many bytes that a pass has still to give back, and with those that it has
released already they are a size. -/
structure Heap.Affords (h : Heap) (released bytes : Nat) : Prop where
  size : h.allocated.current < sizeLimit
  owed : bytes ≤ h.allocated.current
  released : released + bytes < sizeLimit

namespace Heap.Affords

variable {h : Heap} {released n rest : Nat}

theorem front (ha : h.Affords released (n + rest)) : h.Affords released n := by
  obtain ⟨hsize, howed, hreleased⟩ := ha
  exact ⟨hsize, by omega, by omega⟩

theorem giveBack (ha : h.Affords released (n + rest)) :
    (h.giveBack n).Affords (released + n) rest := by
  obtain ⟨hsize, howed, hreleased⟩ := ha
  have hcurrent : (h.giveBack n).allocated.current = h.allocated.current - n := rfl
  refine ⟨?_, ?_, ?_⟩
  · omega
  · omega
  · omega

end Heap.Affords

/-! ## Passes -/

namespace Machine

variable {m : Machine} {hand : List Parcel} {r : ResourceId} {e : Emulated} {heap : Heap}
variable {k : BlockKey} {b : BlockId}

theorem returnSums_right {bs : List BlockId} {released : Nat}
    (h : (m.heapOf r heap).Affords released (k.bytes * bs.length)) :
    ∀ x ∈ m.returnSums r k heap released bs, x.Right := by
  induction bs generalizing m heap released with
  | nil => exact List.forall_mem_nil _
  | cons b bs ih =>
    have hafter := m.heapOf_giveBack r heap b k.bytes k.alignment
    rw [List.length_cons, Nat.mul_succ, Nat.add_comm] at h
    have hrest := h.giveBack
    refine List.forall_mem_cons.mpr ⟨?_, List.forall_mem_cons.mpr ⟨?_, ?_⟩⟩
    · rw [hafter]
      exact Computed.difference_right (Nat.sub_add_cancel h.front.owed) hrest.size
    · exact Computed.sum_right rfl h.front.released
    · apply ih
      rw [hafter]
      exact hrest

theorem Sized.passSums_right {lists : KeyedList BlockKey (List BlockId)} {released : Nat}
    (h : m.Sized hand (parcels r lists)) (hf : FairReleases (m.releaseLists r lists).trace)
    (ha : (m.heapOf r heap).Affords released (FreeLists.totalBytes lists)) :
    ∀ x ∈ m.passSums r heap released lists, x.Right := by
  induction lists generalizing m heap released with
  | nil => exact List.forall_mem_nil _
  | cons entry lists ih =>
    obtain ⟨k, bs⟩ := entry
    have htotal : FreeLists.totalBytes ((k, bs) :: lists) =
        k.bytes * bs.length + FreeLists.totalBytes lists := rfl
    rw [htotal] at ha
    rw [releaseLists_cons] at hf
    have hsynchronized := fairReleases_of_releaseKey (fairReleases_of_releaseLists hf)
    refine List.forall_mem_append.mpr ⟨?_, List.forall_mem_append.mpr ⟨?_, ?_⟩⟩
    · exact h.drainSums_right (fairReleases_of_synchronizeNoThrow hsynchronized)
    · apply returnSums_right
      rw [heapOf_synchronizeNoThrow]
      exact ha.front
    · apply ih (custody_sized.releaseKey h) hf
      rw [heapOf_releaseKey]
      exact ha.giveBack

/-- A pass gives back what was in the free lists before it, in any order. -/
theorem Sized.wholePassSums_right {lists : KeyedList BlockKey (List BlockId)}
    (h : m.Sized hand (parcels r e.free.lists)) (hp : lists.Perm e.free.lists)
    (hf : FairReleases (m.releaseLists r lists).trace) (hbefore : e.Sized 0)
    (hheap : m.heapOf r e.heap = e.heap) :
    ∀ x ∈ m.passSums r e.heap 0 lists, x.Right := by
  have hcounted := hbefore.sound.counted
  have hheld := hbefore.heap_eq
  have hlt := hbefore.heap_lt
  apply (custody_sized.reorder (parcels_perm r hp.symm) h).passSums_right hf
  rw [hheap, show FreeLists.totalBytes lists = FreeLists.totalBytes e.free.lists from
    total_perm _ hp]
  refine ⟨hlt, ?_, ?_⟩
  · omega
  · omega

theorem Sized.releaseCachedSums_right (h : m.Sized hand [])
    (hf : FairReleases (m.releaseCached r).2.trace) : ∀ x ∈ m.releaseCachedSums r, x.Right := by
  unfold releaseCached at hf
  unfold releaseCachedSums
  split
  · exact List.forall_mem_nil _
  · rename_i e he
    rw [he] at hf
    have hfair : FairReleases m.trace :=
      fairReleases_of_releaseLists (m := m.setEmulated r e.beginPass) hf.tail
    have hheap : (m.setEmulated r e.beginPass).heapOf r e.heap = e.heap :=
      (heapOf_setEmulated he e.beginPass rfl).trans (heapOf_of_some he)
    exact (h.beginPass he).wholePassSums_right (m.arrange_perm _) hf.tail (h.sized hfair r e he)
      hheap

/-- The heap of a resource that is dropped lasts for its last pass. -/
theorem Sized.dropSums_right (h : m.Sized hand [])
    (hf : FairReleases (m.drop r).trace) : ∀ x ∈ m.dropSums r, x.Right := by
  unfold drop at hf
  unfold dropSums
  split
  · exact List.forall_mem_nil _
  · rename_i e he
    rw [emulated?_eq_some.mp he] at hf
    let gone : Machine := { m with resources := m.resources.set r none }
    have hgone : gone.Sized hand (parcels r e.free.lists) := h.discard (emulated?_eq_some.mp he)
    have hnone : gone.emulated? r = none :=
      Option.eq_none_iff_forall_ne_some.mpr fun f hf => (emulated?_of_discard hf).1 rfl
    dsimp only [Resource.emulated?] at hf ⊢
    split at hf
    · rename_i hzero
      have hfair : FairReleases gone.trace := fairReleases_of_releaseLists hf.tail
      rw [if_pos hzero]
      exact hgone.wholePassSums_right (gone.arrange_perm _) hf.tail (h.sized hfair r e he)
        (heapOf_of_none hnone)
    · rename_i hzero
      have hfair : FairReleases (gone.log (.droppedInUse e.kind e.live.current)).trace :=
        fairReleases_of_releaseLists hf.tail
      rw [if_neg hzero]
      exact Sized.wholePassSums_right (hgone.note rfl) (arrange_perm _ _) hf.tail
        (h.sized hfair.tail r e he) (heapOf_of_none (m := gone.log _) hnone)

/-! ## Requests -/

theorem Sized.reclaimForSums_right (h : m.Sized hand [])
    (hf : FairReleases (m.reclaimFor r e k).2.trace) : ∀ x ∈ m.reclaimForSums r e k, x.Right := by
  have hlogged : (m.log (.exhausted e.kind k.bytes)).Sized hand [] := h.note rfl
  have hpassed := custody_sized.releaseCached r hlogged
  have hfair : FairReleases ((m.log (.exhausted e.kind k.bytes)).releaseCached r).2.trace := by
    unfold reclaimFor at hf
    dsimp only at hf
    split at hf
    · exact fairReleases_of_takeReserved hf
    · exact hf
  refine List.forall_mem_append.mpr ⟨hlogged.releaseCachedSums_right hfair, ?_⟩
  split
  · rename_i f hf'
    exact (hpassed.sized hfair r f hf').freshSums_right _ r k
  · exact List.forall_mem_nil _

theorem Sized.allocateAsyncSums_right (h : m.Sized hand [])
    (hf : FairReleases (m.allocateAsync r k).2.trace) :
    ∀ x ∈ m.allocateAsyncSums r k, x.Right := by
  have hfair := fairReleases_of_allocateAsync hf
  unfold allocateAsyncSums
  split
  · exact List.forall_mem_nil _
  · rename_i e he
    have hs := h.sized hfair r e he
    split
    · rename_i hsupports
      split
      · rename_i hu
        exact hs.reuseSums_right hu
      · rename_i hu
        refine List.forall_mem_append.mpr ⟨hs.freshSums_right m r k, ?_⟩
        split
        · rename_i hfull
          have hcall : m.allocateAsync r k = m.reclaimFor r e k := by
            unfold allocateAsync
            rw [he]
            dsimp only
            rw [if_pos hsupports, hu, hfull.1]
            exact if_pos hfull.2
          rw [hcall] at hf
          exact h.reclaimForSums_right hf
        · exact List.forall_mem_nil _
    · exact List.forall_mem_nil _

theorem Sized.deallocateSums_right (h : m.Sized (⟨r, k, b⟩ :: hand) [])
    (hf : FairReleases (m.synchronizeNoThrow k.stream).trace) :
    ∀ x ∈ m.deallocateSums r b k, x.Right := by
  refine List.forall_mem_append.mpr ⟨?_, ?_⟩
  · exact h.drainSums_right (fairReleases_of_synchronizeNoThrow hf)
  · exact (custody_sized.synchronizeNoThrow k.stream h).deallocateAsyncSums_right hf

theorem Sized.confirmSums_right (h : m.Sized (⟨r, k, b⟩ :: hand) [])
    (hf : FairReleases (m.synchronize k.stream).2.trace) : ∀ x ∈ m.confirmSums r b k, x.Right := by
  have hm : (m.synchronize k.stream).2.Sized (⟨r, k, b⟩ :: hand) [] :=
    custody_sized.drain .synchronize k.stream h
  refine List.forall_mem_append.mpr ⟨h.drainSums_right hf, ?_⟩
  rcases hs : m.synchronize k.stream with ⟨f | _, m'⟩
  · rw [hs] at hf hm
    exact hm.deallocateAsyncSums_right hf
  · exact List.forall_mem_nil _

/-- A synchronous request ends with the first synchronization, with the request itself, or with the
second synchronization, after which the block may go back. -/
theorem allocate_stages (he : m.emulated? r = some e) (bytes alignment : Nat) :
    (∃ f n, m.synchronize defaultStream = (.error f, n) ∧
      (m.allocate r bytes alignment).2 = n) ∨
    (∃ n f n', m.synchronize defaultStream = (.ok (), n) ∧
      n.allocateAsync r ⟨defaultStream, bytes, alignment⟩ = (.error f, n') ∧
      (m.allocate r bytes alignment).2 = n') ∨
    ∃ n b n', m.synchronize defaultStream = (.ok (), n) ∧
      n.allocateAsync r ⟨defaultStream, bytes, alignment⟩ = (.ok b, n') ∧
      ((m.allocate r bytes alignment).2 = (n'.synchronize defaultStream).2 ∨
        (m.allocate r bytes alignment).2 =
          (n'.synchronize defaultStream).2.deallocateAsync r b
            ⟨defaultStream, bytes, alignment⟩) := by
  have hall : m.allocate r bytes alignment = (emulatedBackend r).allocate m bytes alignment := by
    unfold allocate
    rw [backend?_eq_emulatedBackend he]
  have hviews : ∀ m : Machine, (emulatedBackend r).synchronize m (emulatedBackend r).defaultStream =
      ((m.synchronize defaultStream).1.mapError .stream, (m.synchronize defaultStream).2) :=
    fun _ => rfl
  have h₁ := hviews m
  rw [hall]
  rcases hs₁ : m.synchronize defaultStream with ⟨f | _, n⟩
  · rw [hs₁] at h₁
    rw [Backend.allocate_of_synchronize_error h₁]
    exact .inl ⟨f, n, rfl, rfl⟩
  rw [hs₁] at h₁
  rcases h₂ : n.allocateAsync r ⟨defaultStream, bytes, alignment⟩ with ⟨f | b, n'⟩
  · rw [Backend.allocate_of_allocateAsync_error h₁ h₂]
    exact .inr (.inl ⟨n, f, n', rfl, h₂, rfl⟩)
  have h₃ := hviews n'
  refine .inr (.inr ⟨n, b, n', rfl, h₂, ?_⟩)
  rcases hs₃ : n'.synchronize defaultStream with ⟨f | _, n''⟩
  · rw [hs₃] at h₃
    rw [Backend.allocate_of_second_synchronize_error h₁ h₂ h₃]
    exact .inr rfl
  · rw [hs₃] at h₃
    rw [Backend.allocate_of_ok h₁ h₂ h₃]
    exact .inl rfl

theorem Sized.allocateSums_right (h : m.Sized hand []) (he : m.emulated? r = some e)
    (bytes alignment : Nat) (hf : FairReleases (m.allocate r bytes alignment).2.trace) :
    ∀ x ∈ m.allocateSums r ⟨defaultStream, bytes, alignment⟩, x.Right := by
  have hfirst : FairReleases (m.synchronize defaultStream).2.trace →
      ∀ x ∈ m.drainSums .synchronize defaultStream, x.Right := h.drainSums_right
  have hm : (m.synchronize defaultStream).2.Sized hand [] :=
    custody_sized.drain .synchronize defaultStream h
  unfold allocateSums
  dsimp only
  rcases allocate_stages he bytes alignment with
    ⟨f, n, h₁, hend⟩ | ⟨n, f, n', h₁, h₂, hend⟩ | ⟨n, b, n', h₁, h₂, hend⟩
  all_goals
    rw [h₁] at hfirst hm ⊢
    dsimp only at hfirst hm ⊢
  · rw [hend] at hf
    exact List.forall_mem_append.mpr ⟨hfirst hf, List.forall_mem_nil _⟩
  · have hf₂ : FairReleases (n.allocateAsync r ⟨defaultStream, bytes, alignment⟩).2.trace := by
      rw [h₂]
      exact hend ▸ hf
    refine List.forall_mem_append.mpr ⟨hfirst (fairReleases_of_allocateAsync hf₂),
      List.forall_mem_append.mpr ⟨hm.allocateAsyncSums_right hf₂, ?_⟩⟩
    rw [h₂]
    exact List.forall_mem_nil _
  · have hf₃ : FairReleases (n'.synchronize defaultStream).2.trace := by
      rcases hend with hend | hend
      · exact hend ▸ hf
      · exact fairReleases_of_deallocateAsync (hend ▸ hf)
    have hf₂ : FairReleases (n.allocateAsync r ⟨defaultStream, bytes, alignment⟩).2.trace := by
      rw [h₂]
      exact fairReleases_of_drain hf₃
    have hn' : n'.Sized (⟨r, ⟨defaultStream, bytes, alignment⟩, b⟩ :: hand) [] := by
      have hserved := custody_sized.allocateAsync r ⟨defaultStream, bytes, alignment⟩ hm
      rw [h₂] at hserved
      exact hserved
    refine List.forall_mem_append.mpr ⟨hfirst (fairReleases_of_allocateAsync hf₂),
      List.forall_mem_append.mpr ⟨hm.allocateAsyncSums_right hf₂, ?_⟩⟩
    rw [h₂]
    exact hn'.confirmSums_right hf₃

/-! ## Runs -/

/-- An emulated resource is given up its own blocks only. -/
theorem Sized.giveUpTo (h : m.Sized hand []) (he : m.emulated? r = some e) {x : Loan}
    (ha : m.accepts r x.resource = true) (s : StreamId) :
    (m.emit (.released x)).Sized (⟨r, ⟨s, x.bytes, x.alignment⟩, x.block⟩ :: hand) [] := by
  obtain rfl : r = x.resource := eq_of_accepts he ha
  exact h.giveUp ⟨x.resource, ⟨s, x.bytes, x.alignment⟩, x.block⟩

theorem Sized.callSums_right (h : m.Sized [] []) {c : Call} (hl : m.Accepted c)
    (hf : FairReleases (m.call c).trace) : ∀ x ∈ m.callSums c, x.Right := by
  cases c with
  | synchronize s => exact h.drainSums_right hf
  | synchronizeNoThrow s => exact h.drainSums_right (fairReleases_of_synchronizeNoThrow hf)
  | destroy s => exact h.drainSums_right hf
  | allocateAsync r k =>
    cases he : m.emulated? r with
    | none =>
      simp only [callSums, allocateAsyncSums, he]
      exact List.forall_mem_nil _
    | some e =>
      rw [call_allocateAsync he] at hf
      exact h.allocateAsyncSums_right (fairReleases_of_lend hf)
  | allocate r bytes alignment =>
    cases he : m.emulated? r with
    | none =>
      simp only [callSums, he]
      exact List.forall_mem_nil _
    | some e =>
      simp only [callSums, he]
      exact h.allocateSums_right he bytes alignment (fairReleases_of_lend hf)
  | releaseAsync r x s =>
    cases he : m.emulated? r with
    | none =>
      have he' : (m.emit (.released x)).emulated? r = none := he
      simp only [callSums, deallocateAsyncSums, he']
      exact List.forall_mem_nil _
    | some e =>
      rw [call_releaseAsync he] at hf
      exact (h.giveUpTo he hl s).deallocateAsyncSums_right hf.tail.tail
  | release r x =>
    cases he : m.emulated? r with
    | none =>
      simp only [callSums, he]
      exact List.forall_mem_nil _
    | some e =>
      simp only [callSums, he]
      rw [call_release he] at hf
      exact Sized.deallocateSums_right (k := ⟨defaultStream, x.bytes, x.alignment⟩)
        (h.giveUpTo he hl defaultStream) (fairReleases_of_deallocateAsync hf)
  | releaseCached r => exact h.releaseCachedSums_right hf
  | drop r => exact h.dropSums_right hf
  | _ => exact List.forall_mem_nil _

theorem Sized.runSums_right (h : m.Sized [] []) {cs : List Call} (ho : m.Obeys Accepted cs)
    (hf : FairReleases (m.run cs).trace) : ∀ x ∈ m.runSums cs, x.Right := by
  induction cs generalizing m with
  | nil => exact List.forall_mem_nil _
  | cons c cs ih =>
    refine List.forall_mem_append.mpr ⟨h.callSums_right ho.1 (fairReleases_of_run hf), ?_⟩
    exact ih (custody_sized.call ho.1 h) ho.2 hf

/-- If whatever is given up was on loan, no sum or difference that is not tested leaves the sizes,
whatever is asked for and whatever the heap refuses. So nothing is lost: what is kept is what is
meant. -/
theorem sums_exact {env : Environment} {cs : List Call}
    (ho : (start env).Obeys Accepted cs) (hf : FairReleases ((start env).run cs).trace) :
    ∀ x ∈ (start env).runSums cs,
      (x.kept : Int) = x.exact ∧ 0 ≤ x.exact ∧ x.exact < 2 ^ 64 := by
  intro x hx
  obtain ⟨hexact, hlt⟩ := (Sized.start env).runSums_right ho hf x hx
  unfold sizeLimit at hlt
  rw [hexact]
  omega

/-- The system has no block of more than 64 bytes. -/
def frugal : Environment := .serving fun l => decide (l.size ≤ 64)

/-- A block is lent, released, and lent again. More is asked for than the system has. An operation
releases the block, and more is asked for than fits next to it. A block is lent and released at
once, and the resource is dropped. -/
def greed : List Call :=
  [.build (.emulated .device (.of (2 ^ 64 - 1) 256 true)), .allocateAsync 0 ⟨1, 8, 8⟩,
    .releaseAsync 0 ⟨0, 0, 8, 8⟩ 1, .allocateAsync 0 ⟨1, 8, 8⟩, .allocateAsync 0 ⟨1, 2 ^ 63, 8⟩,
    .enqueue 2 [.free 0 0 ⟨2, 8, 8⟩], .synchronize 2, .allocateAsync 0 ⟨1, 2 ^ 64 - 1, 8⟩,
    .allocate 0 4 8, .release 0 ⟨1, 0, 4, 8⟩, .drop 0]

/-- Before the largest request the sum that is tested is no size, so it has to be tested. -/
theorem sums_exact_greed :
    (start frugal).Obeys Accepted greed ∧ FairReleases ((start frugal).run greed).trace ∧
      ((start frugal).runSums greed).map Computed.kept =
        [0, 8, 8, 8, 0, 0, 8, 8, 2 ^ 63 + 8, 8, 8, 0, 8, 0, 8, 0, 2 ^ 64 - 1, 0,
          0, 4, 4, 4, 0, 0, 4] ∧
      (∀ x ∈ (start frugal).runSums greed,
        (x.kept : Int) = x.exact ∧ 0 ≤ x.exact ∧ x.exact < 2 ^ 64) ∧
      ∃ e, ((start frugal).run (greed.take 7)).emulated? 0 = some e ∧
        2 ^ 64 ≤ e.footprint + (2 ^ 64 - 1) := by
  have ho : (start frugal).Obeys Accepted greed := by decide +kernel
  have hf : FairReleases ((start frugal).run greed).trace := by decide +kernel
  have hkept : ((start frugal).runSums greed).map Computed.kept =
      [0, 8, 8, 8, 0, 0, 8, 8, 2 ^ 63 + 8, 8, 8, 0, 8, 0, 8, 0, 2 ^ 64 - 1, 0,
        0, 4, 4, 4, 0, 0, 4] := by
    decide +kernel
  have hroom :
      (((start frugal).run (greed.take 7)).emulated? 0).map Emulated.footprint = some 8 := by
    decide +kernel
  obtain ⟨e, he, hfootprint⟩ := Option.map_eq_some_iff.mp hroom
  have htested : 2 ^ 64 ≤ e.footprint + (2 ^ 64 - 1) := by omega
  exact ⟨ho, hf, hkept, @sums_exact frugal greed ho hf, e, he, htested⟩

end Machine

end StreamMemory
