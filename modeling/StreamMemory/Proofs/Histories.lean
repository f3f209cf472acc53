import StreamMemory.Proofs.StreamOrder

/-!
# Histories only grow

No call takes back what happened, and neither does any part of a call. So if everything that was
given up by the end of a run was on loan, this was so at any time before.
-/

set_option autoImplicit false

namespace StreamMemory

theorem Machine.suffix_giveBack (m : Machine) (r : ResourceId) (b : BlockId)
    (bytes alignment : Nat) : m.trace <:+ (m.giveBack r b bytes alignment).trace := by
  rw [m.trace_giveBack]
  exact List.suffix_cons _ _

/-- What happened is not taken back. -/
theorem custody_past (past : List Event) :
    Custody (fun _ _ => True) True fun m _ _ => past <:+ m.trace where
  note _ _ h := h.trans (List.suffix_cons _ _)
  frame _ _ ht _ _ h := by rwa [ht]
  drain request s h := (drainStable_past past).drain request s h
  reuse _ _ h := h
  refuse _ _ h := h
  fresh _ _ hb h := by
    obtain ⟨-, -, rfl⟩ := Machine.takeBlock_eq_ok hb
    exact h.trans (List.suffix_cons _ _)
  cache _ h := h.trans (List.suffix_cons _ _)
  beginPass _ h := h
  discard _ _ h := h
  reorder _ h := h
  releaseKey {_ hand _ _ _ lists} h :=
    Custody.releaseKey_of_giveBack (I := fun m _ _ => past <:+ m.trace)
      (fun _ _ hn => hn.trans (List.suffix_cons _ _))
      (fun request s hn => (drainStable_past past).drain request s hn)
      (fun hn => hn.trans (Machine.suffix_giveBack ..)) hand lists h
  plainFresh _ _ hb h := by
    obtain ⟨-, -, rfl⟩ := Machine.takeBlock_eq_ok hb
    exact h.trans (List.suffix_cons _ _)
  plainReturn _ _ _ h := h.trans (Machine.suffix_giveBack ..)
  lend h := h.trans (List.suffix_cons _ _)
  build {m blueprint} _ h := by
    cases blueprint with
    | emulated kind config => exact h.trans (List.suffix_cons _ _)
    | _ => exact h
  enqueue _ h := h.trans (List.suffix_cons _ _)
  releaseAsync {_ r _ _} _ _ h := ⟨r, .inl rfl, h.trans (List.suffix_cons _ _)⟩
  release {_ r _} _ _ h := ⟨r, .inl rfl, h.trans (List.suffix_cons _ _)⟩

theorem Run.fairReleases_of_finish {run : Run} (hf : FairReleases run.finish.2.trace) :
    FairReleases run.machine.trace := by
  have hpast := drainStable_past run.machine.trace
  refine hf.of_suffix (Run.finish_induction
    (P := fun next => run.machine.trace <:+ next.machine.trace)
    (Q := fun done => run.machine.trace <:+ done.2.trace) ?_ ?_ (List.suffix_refl _))
  · exact fun _ _ h hs => hpast.step h hs
  · intro next done h hs
    obtain ⟨-, -, rfl⟩ := Run.step_eq_inl hs
    exact hpast.closeDrain next.frame h

namespace Machine

variable {m : Machine} {r : ResourceId} {e : Emulated} {k : BlockKey} {b : BlockId} {s : StreamId}

theorem fairReleases_of_drain {request : DrainRequest}
    (hf : FairReleases (m.drain request s).2.trace) : FairReleases m.trace :=
  hf.of_suffix ((drainStable_past m.trace).drain request s (List.suffix_refl _))

theorem fairReleases_of_synchronizeNoThrow (hf : FairReleases (m.synchronizeNoThrow s).trace) :
    FairReleases (m.synchronize s).2.trace := by
  rcases m.synchronizeNoThrow_eq s with h | ⟨f, h⟩
  · rwa [h] at hf
  · rw [h] at hf
    exact hf.tail

theorem fairReleases_of_releaseKey {bs : List BlockId}
    (hf : FairReleases (m.releaseKey r k bs).trace) :
    FairReleases (m.synchronizeNoThrow k.stream).trace := by
  let past := (m.synchronizeNoThrow k.stream).trace
  exact hf.of_suffix (releaseKey_induction (P := fun n => past <:+ n.trace)
    (fun _ _ h => h.trans (suffix_giveBack ..)) bs (List.suffix_refl _))

theorem fairReleases_of_releaseLists {lists : KeyedList BlockKey (List BlockId)}
    (hf : FairReleases (m.releaseLists r lists).trace) : FairReleases m.trace :=
  hf.of_suffix ((drainStable_past m.trace).releaseLists
    (fun _ _ _ h => h.trans (suffix_giveBack ..)) lists (List.suffix_refl _))

theorem fairReleases_of_takeReserved (hf : FairReleases (m.takeReserved r e k).2.trace) :
    FairReleases m.trace := by
  unfold takeReserved at hf
  split at hf
  · exact hf
  · rename_i hb
    exact fairReleases_of_takeBlock hb hf.tail

theorem fairReleases_of_allocateAsync (hf : FairReleases (m.allocateAsync r k).2.trace) :
    FairReleases m.trace := by
  have hserved : Upkeep.Served (fun n _ => m.trace <:+ n.trace) r k [] (m.allocateAsync r k) :=
    (custody_past m.trace).allocateAsync r k (List.suffix_refl _)
  exact hf.of_suffix (hserved.snd (P := fun n => m.trace <:+ n.trace) fun h => h)

theorem fairReleases_of_deallocateAsync (hf : FairReleases (m.deallocateAsync r b k).trace) :
    FairReleases m.trace := by
  unfold deallocateAsync at hf
  split at hf
  · exact hf.tail.tail
  · exact hf

theorem fairReleases_of_lend {bytes alignment : Nat} {o : Except Failure BlockId × Machine}
    (hf : FairReleases (lend r bytes alignment o).trace) : FairReleases o.2.trace := by
  rcases o with ⟨f | b, n⟩
  · exact hf
  · exact hf.tail

theorem fairReleases_of_run {cs : List Call} (hf : FairReleases (m.run cs).trace) :
    FairReleases m.trace :=
  hf.of_suffix ((custody_past m.trace).run (m.obeys_any cs) (List.suffix_refl _))

end Machine

end StreamMemory
