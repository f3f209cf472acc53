import StreamMemory.Registry.Holder
import StreamMemory.Registry.Lemmas

/-!
# Shared queues

What holders of handles can rely on. A queue is registered under one id for all time, its owners are
the handles to it and the registry, and it leaves the registry by `prune` only when nobody can miss
it. Two handles for the same id are handles to one queue as long as the id is not unregistered
meanwhile.
-/

set_option autoImplicit false

namespace StreamMemory

namespace Registry

variable {α : Type} (r : Registry α)

theorem handles_modify (q : QueueId) (f : Queue α → Queue α) (p : QueueId) :
    (r.modify q f).handles p =
      if p = q then (r.queues[q]?.map fun x => (f x).handles).getD 0 else r.handles p := by
  unfold handles modify
  dsimp only
  rw [List.getElem?_modify]
  by_cases hp : p = q
  · subst hp
    cases r.queues[p]? <;> simp
  · have hqp : ¬ q = p := fun e => hp e.symm
    cases r.queues[p]? <;> simp [hp, hqp]

theorem handles_hold {q : QueueId} (hq : q < r.queues.length) (p : QueueId) :
    (r.hold q).handles p = r.handles p + if p = q then 1 else 0 := by
  unfold hold
  rw [handles_modify, List.getElem?_eq_getElem hq]
  split
  · rename_i hp
    subst hp
    simp [handles, hq]
  · rfl

theorem handles_release (q p : QueueId) :
    (r.release q).handles p = r.handles p - if p = q then 1 else 0 := by
  unfold release
  rw [handles_modify]
  split
  · rename_i hp
    subst hp
    unfold handles
    cases r.queues[p]? <;> rfl
  · rfl

/-- Changing the items of a queue does not share it. -/
theorem handles_modify_items (q : QueueId) {f : Queue α → Queue α}
    (hf : ∀ x, (f x).handles = x.handles) (p : QueueId) :
    (r.modify q f).handles p = r.handles p := by
  rw [handles_modify]
  split
  · rename_i hp
    subst hp
    unfold handles
    cases r.queues[p]? with
    | none => rfl
    | some x => exact hf x
  · rfl

theorem handles_create (id : StreamId) (p : QueueId) :
    (r.create id).handles p = r.handles p + if p = r.queues.length then 1 else 0 := by
  unfold handles create
  dsimp only
  rcases Nat.lt_trichotomy p r.queues.length with hp | hp | hp
  · rw [List.getElem?_append_left hp, if_neg (Nat.ne_of_lt hp), Nat.add_zero]
  · subst hp
    simp
  · have hlen : (r.queues ++ [(⟨[], 1⟩ : Queue α)]).length ≤ p := by
      rw [List.length_append]
      exact hp
    rw [List.getElem?_eq_none hlen, List.getElem?_eq_none (Nat.le_of_lt hp),
      if_neg (Nat.ne_of_gt hp)]
    rfl

/-- A new queue takes the place of no other. -/
theorem find?_create_of_some {r : Registry α} {id t : StreamId} {q : QueueId}
    (ht : r.find? t = none) (hid : r.find? id = some q) : (r.create t).find? id = some q := by
  have hne : id ≠ t := by
    rintro rfl
    rw [ht] at hid
    cases hid
  rw [find?_create ht, if_neg hne]
  exact hid

theorem items_modify_of_ne {p q : QueueId} (hp : p ≠ q) (f : Queue α → Queue α) :
    (r.modify q f).items p = r.items p := by
  have hqp : ¬ q = p := fun e => hp e.symm
  simp [items, modify, hqp]

theorem mem_items_push {b : α} {p : QueueId} (q : QueueId) (a : α) (hb : b ∈ r.items p) :
    b ∈ (r.push q a).items p := by
  by_cases hp : p = q
  · subst hp
    unfold items at hb ⊢
    unfold push modify
    dsimp only
    rw [List.getElem?_modify_eq]
    cases hx : r.queues[p]? with
    | none => simp [hx] at hb
    | some x =>
      rw [hx] at hb
      exact List.mem_append_left [a] hb
  · rw [push, items_modify_of_ne r hp]
    exact hb

theorem queue_lt_length (h : r.WellFormed) (id : StreamId) :
    (r.queue id).1 < (r.queue id).2.queues.length :=
  (h.queue id).lt_of_find? (r.find?_queue_self id)

/-- Whether a queue is registered, under whatever id. -/
def Registered (q : QueueId) : Prop := ∃ id, r.find? id = some q

theorem WellFormed.registered_iff {r : Registry α} (h : r.WellFormed) (q : QueueId) :
    r.Registered q ↔ q ∈ r.table.map Prod.snd := by
  constructor
  · rintro ⟨id, hq⟩
    exact List.mem_map.mpr ⟨(id, q), KeyedList.mem_of_get? hq, rfl⟩
  · intro hq
    obtain ⟨⟨id, _⟩, he, rfl⟩ := List.mem_map.mp hq
    exact ⟨id, KeyedList.get?_of_mem h.ids he⟩

/-- The registry is one owner of a registered queue. -/
theorem WellFormed.owners_eq {r : Registry α} (h : r.WellFormed) (q : QueueId) :
    (r.Registered q → r.owners q = r.handles q + 1) ∧
      (¬ r.Registered q → r.owners q = r.handles q) := by
  have hcount : r.owners q = r.handles q + (r.table.map Prod.snd).count q := by
    rw [List.count, List.countP_map]
    rfl
  rw [hcount, h.registered_iff, h.queues.count]
  constructor
  · intro hq
    rw [if_pos hq]
  · intro hq
    rw [if_neg hq, Nat.add_zero]

end Registry

namespace Holder

def run (h : Holder) (rs : List Request) : Holder := rs.foldl (fun h r => (h.step r).2) h

@[simp] theorem run_nil (h : Holder) : h.run [] = h := rfl

@[simp] theorem run_cons (h : Holder) (r : Request) (rs : List Request) :
    h.run (r :: rs) = (h.step r).2.run rs := rfl

theorem handle?_eq_some {h : Holder} {n : Nat} {q : QueueId} :
    h.handle? n = some q ↔ h.handles[n]? = some (some q) :=
  Option.join_eq_some_iff

/-- The kept handles to a queue. -/
def kept (h : Holder) (q : QueueId) : Nat := h.handles.count (some q)

theorem kept_pos {h : Holder} {n : Nat} {q : QueueId} (hn : h.handle? n = some q) :
    0 < h.kept q :=
  List.count_pos_iff.mpr (List.mem_of_getElem? (handle?_eq_some.mp hn))

theorem handle?_set_none {h : Holder} {r : Registry Job} {n m : Nat} {q : QueueId} :
    Holder.handle? ⟨r, h.handles.set n none⟩ m = some q ↔ n ≠ m ∧ h.handle? m = some q := by
  rw [handle?_eq_some, handle?_eq_some]
  dsimp only
  rw [List.getElem?_set]
  by_cases hne : n = m
  · subst hne
    rw [if_pos rfl]
    refine iff_of_false ?_ (fun hm => hm.1 rfl)
    split <;> exact fun e => by cases e
  · rw [if_neg hne]
    exact (and_iff_right hne).symm

/-- Without one of its handles, a queue has one less. -/
theorem count_set_none {h : Holder} {n : Nat} {q : QueueId} (hn : h.handle? n = some q)
    (p : QueueId) :
    (h.handles.set n none).count (some p) = h.kept p - if p = q then 1 else 0 := by
  rw [handle?_eq_some, List.getElem?_eq_some_iff] at hn
  obtain ⟨hlt, hn⟩ := hn
  unfold kept
  rw [List.count_set hlt, hn]
  by_cases hp : p = q
  · subst hp
    simp
  · have hqp : ¬ q = p := fun e => hp e.symm
    simp [hp, hqp]

theorem kept_eq_one_iff {h : Holder} {n : Nat} {q : QueueId} (hn : h.handle? n = some q) :
    h.kept q = 1 ↔ ∀ m, h.handle? m = some q → m = n := by
  have hpos := kept_pos hn
  have hcount := count_set_none hn q
  rw [if_pos rfl] at hcount
  have hzero : h.kept q = 1 ↔ some q ∉ h.handles.set n none := by
    rw [← List.count_eq_zero, hcount]
    omega
  rw [hzero]
  have hleft : ∀ m, (h.handles.set n none)[m]? = some (some q) ↔ n ≠ m ∧ h.handle? m = some q :=
    fun m => handle?_eq_some.symm.trans (handle?_set_none (r := h.registry))
  rw [List.mem_iff_getElem?]
  constructor
  · intro hnone m hm
    apply Decidable.byContradiction
    intro hne
    exact hnone ⟨m, (hleft m).mpr ⟨Ne.symm hne, hm⟩⟩
  · rintro hsole ⟨m, hmem⟩
    obtain ⟨hne, hm⟩ := (hleft m).mp hmem
    exact hne (hsole m hm).symm

/-! ## What a request does -/

def Reply.queue? : Reply → Option QueueId
  | .handle _ q => some q
  | _ => none

/-- Everything that a request can do to a holder. -/
inductive Effect (h : Holder) : Request → Reply → Holder → Prop
  | found {r : Request} {id : StreamId} {q : QueueId} (hr : r = .queue id ∨ r = .existing id)
      (hq : h.registry.find? id = some q) :
      Effect h r (.handle h.handles.length q) ⟨h.registry.hold q, h.handles ++ [some q]⟩
  | created {id : StreamId} (hid : h.registry.find? id = none) :
      Effect h (.queue id) (.handle h.handles.length h.registry.queues.length)
        ⟨h.registry.create id, h.handles ++ [some h.registry.queues.length]⟩
  | removed {id : StreamId} {q : QueueId} (hq : h.registry.find? id = some q) :
      Effect h (.remove id) (.handle h.handles.length q)
        ⟨(h.registry.unregister id).hold q, h.handles ++ [some q]⟩
  | pushed {n : Nat} {job : Job} {q : QueueId} (hn : h.handle? n = some q) :
      Effect h (.push n job) .nothing { h with registry := h.registry.push q job }
  | drained {n : Nat} {q : QueueId} (hn : h.handle? n = some q) :
      Effect h (.drain n) (.drained (Job.drain (h.registry.items q)))
        { h with registry := h.registry.modify q fun x => { x with items := [] } }
  | dropped {n : Nat} {q : QueueId} (hn : h.handle? n = some q) :
      Effect h (.drop n) .nothing ⟨h.registry.release q, h.handles.set n none⟩
  | pruned {id : StreamId} {n : Nat} {q : QueueId} (hn : h.handle? n = some q)
      (hp : h.registry.prunable id q = true) :
      Effect h (.prune id n) (.flag true) { h with registry := h.registry.unregister id }
  | same {r : Request} {reply : Reply} (hreply : reply.queue? = none)
      (hremove : ∀ id, r = .remove id → h.registry.find? id = none)
      (hprune : ∀ id n, r = .prune id n → reply ≠ .flag true) (hdrop : ∀ n q, r = .drop n →
        h.handle? n ≠ some q) : Effect h r reply h

theorem effect_withHandle {h : Holder} {r : Request} {n : Nat} {f : QueueId → Reply × Holder}
    (hremove : ∀ id, r ≠ .remove id)
    (hf : ∀ q, h.handle? n = some q → Effect h r (f q).1 (f q).2) (hdrop : ∀ m, r = .drop m → m = n) :
    Effect h r (h.withHandle n f).1 (h.withHandle n f).2 := by
  unfold withHandle
  split
  · rename_i q hq
    exact hf q hq
  · rename_i hn
    refine .same rfl (fun id hr => absurd hr (hremove id)) (fun _ _ _ hreply => by cases hreply) ?_
    intro m q hr
    rw [hdrop m hr, hn]
    exact fun e => by cases e

theorem effect_step (h : Holder) (r : Request) : Effect h r (h.step r).1 (h.step r).2 := by
  cases r with
  | queue id =>
    dsimp only [step, Registry.queue]
    cases hid : h.registry.find? id with
    | none => exact .created hid
    | some q => exact .found (.inl rfl) hid
  | existing id =>
    dsimp only [step, Registry.existing]
    cases hid : h.registry.find? id with
    | none =>
      exact .same rfl (fun _ e => by cases e) (fun _ _ e => by cases e) (fun _ _ e => by cases e)
    | some q => exact .found (.inr rfl) hid
  | remove id =>
    dsimp only [step, Registry.remove]
    cases hid : h.registry.find? id with
    | none =>
      refine .same rfl ?_ (fun _ _ e => by cases e) (fun _ _ e => by cases e)
      rintro _ ⟨⟩
      exact hid
    | some q => exact .removed hid
  | known id =>
    exact .same rfl (fun _ e => by cases e) (fun _ _ e => by cases e) (fun _ _ e => by cases e)
  | push n job =>
    refine effect_withHandle (fun _ e => by cases e) ?_ (fun _ e => by cases e)
    exact fun q hn => .pushed hn
  | drain n =>
    refine effect_withHandle (fun _ e => by cases e) ?_ (fun _ e => by cases e)
    exact fun q hn => .drained hn
  | length n =>
    refine effect_withHandle (fun _ e => by cases e) ?_ (fun _ e => by cases e)
    exact fun q _ =>
      .same rfl (fun _ e => by cases e) (fun _ _ e => by cases e) (fun _ _ e => by cases e)
  | drop n =>
    refine effect_withHandle (fun _ e => by cases e) ?_ (fun _ e => by cases e; rfl)
    exact fun q hn => .dropped hn
  | prune id n =>
    refine effect_withHandle (fun _ e => by cases e) ?_ (fun _ e => by cases e)
    intro q hn
    dsimp only
    cases hp : h.registry.prunable id q with
    | false =>
      rw [Registry.prune_eq_self hp]
      exact .same rfl (fun _ e => by cases e) (fun _ _ _ hreply => by cases hreply)
        (fun _ _ e => by cases e)
    | true =>
      unfold Registry.prune
      rw [if_pos hp]
      exact .pruned hn hp

/-! ## Counting handles -/

/-- The registry counts every kept handle, and no other. -/
structure Consistent (h : Holder) : Prop where
  registry : h.registry.WellFormed
  handles : ∀ q, h.registry.handles q = h.kept q
  created : ∀ n q, h.handle? n = some q → q < h.registry.queues.length

theorem consistent_empty : ({} : Holder).Consistent :=
  ⟨Registry.wellFormed_empty, fun _ => rfl, fun _ _ hn => by cases hn⟩

namespace Consistent

variable {h h' : Holder} (c : h.Consistent)
include c

theorem keep {r : Registry Job} {q : QueueId} (hw : r.WellFormed)
    (hlen : h.registry.queues.length ≤ r.queues.length) (hq : q < r.queues.length)
    (hhandles : ∀ p, r.handles p = h.registry.handles p + if p = q then 1 else 0) :
    Consistent ⟨r, h.handles ++ [some q]⟩ := by
  refine ⟨hw, ?_, ?_⟩
  · intro p
    have hone : [some q].count (some p) = if p = q then 1 else 0 := by
      by_cases hp : p = q
      · simp [hp]
      · have hp' : ¬ q = p := fun e => hp e.symm
        simp [hp, hp']
    unfold kept
    rw [List.count_append, hone, hhandles, c.handles]
    rfl
  · intro n p hn
    rw [handle?_eq_some] at hn
    rcases List.mem_append.mp (List.mem_of_getElem? hn) with hmem | hmem
    · obtain ⟨m, hm⟩ := List.mem_iff_getElem?.mp hmem
      exact Nat.lt_of_lt_of_le (c.created m p (handle?_eq_some.mpr hm)) hlen
    · rw [List.mem_singleton] at hmem
      cases hmem
      exact hq

theorem modify_items (q : QueueId) {f : Queue Job → Queue Job}
    (hf : ∀ x, (f x).handles = x.handles) :
    Consistent { h with registry := h.registry.modify q f } := by
  have hlen : (h.registry.modify q f).queues.length = h.registry.queues.length :=
    Registry.length_queues_modify _ _ _
  refine ⟨c.registry.modify q f, ?_, ?_⟩
  · exact fun p => (h.registry.handles_modify_items q hf p).trans (c.handles p)
  · exact fun m p hm => Nat.lt_of_lt_of_eq (c.created m p hm) hlen.symm

theorem effect {r : Request} {reply : Reply} (he : Effect h r reply h') : h'.Consistent := by
  cases he with
  | @found _ id q _ hq =>
    have hlt := c.registry.lt_of_find? hq
    have hlen : (h.registry.hold q).queues.length = h.registry.queues.length :=
      Registry.length_queues_modify _ _ _
    exact c.keep (c.registry.hold q) (Nat.le_of_eq hlen.symm) (Nat.lt_of_lt_of_eq hlt hlen.symm)
      (h.registry.handles_hold hlt)
  | @created id hid =>
    have hnew : h.registry.queue id = (h.registry.queues.length, h.registry.create id) := by
      unfold Registry.queue
      rw [hid]
    have hw := c.registry.queue id
    have hlt := h.registry.queue_lt_length c.registry id
    rw [hnew] at hw hlt
    exact c.keep hw (Nat.le_of_lt hlt) hlt (h.registry.handles_create id)
  | @removed id q hq =>
    have hlt := c.registry.lt_of_find? hq
    have hlen : ((h.registry.unregister id).hold q).queues.length = h.registry.queues.length :=
      Registry.length_queues_modify _ _ _
    exact c.keep ((c.registry.unregister id).hold q) (Nat.le_of_eq hlen.symm)
      (Nat.lt_of_lt_of_eq hlt hlen.symm) ((h.registry.unregister id).handles_hold hlt)
  | pushed _ => exact c.modify_items _ fun _ => rfl
  | drained _ => exact c.modify_items _ fun _ => rfl
  | @dropped n q hn =>
    have hlen : (h.registry.release q).queues.length = h.registry.queues.length :=
      Registry.length_queues_modify _ _ _
    refine ⟨c.registry.release q, ?_, ?_⟩
    · intro p
      rw [Registry.handles_release, c.handles]
      exact (count_set_none hn p).symm
    · intro m p hm
      rw [hlen]
      exact c.created m p (handle?_set_none.mp hm).2
  | pruned _ _ => exact ⟨c.registry.unregister _, c.handles, c.created⟩
  | same _ _ _ _ => exact c

theorem step (r : Request) : (h.step r).2.Consistent := c.effect (h.effect_step r)

theorem run (rs : List Request) : (h.run rs).Consistent := by
  induction rs generalizing h with
  | nil => exact c
  | cons r rs ih => exact ih (c.step r)

end Consistent

/-! ## Registrations -/

/-- A request takes the queue of `id` out of the registry: a removal, or a `prune` that says so. -/
def Forgetting (id : StreamId) (r : Request) (reply : Reply) : Prop :=
  r = .remove id ∨ ∃ n, r = .prune id n ∧ reply = .flag true

/-- No request of a run forgets `id`. -/
def Keeps (id : StreamId) (h : Holder) : List Request → Prop
  | [] => True
  | r :: rs => ¬ Forgetting id r (h.step r).1 ∧ (h.step r).2.Keeps id rs

/-- Whether a request asks for a handle to the queue of `id`. -/
def Request.asks (id : StreamId) : Request → Bool
  | .queue t | .existing t | .remove t => t == id
  | _ => false

namespace Effect

variable {h h' : Holder} {r : Request} {reply : Reply} (he : Effect h r reply h')
include he

theorem length_queues_le : h.registry.queues.length ≤ h'.registry.queues.length := by
  cases he with
  | created _ => simp [Registry.create]
  | pruned _ _ => exact Nat.le_refl _
  | same _ _ _ _ => exact Nat.le_refl _
  | _ => exact Nat.le_of_eq (Registry.length_queues_modify _ _ _).symm

/-- A queue that exists is never registered anew. -/
theorem find?_of_lt {t : StreamId} {q : QueueId} (hlt : q < h.registry.queues.length)
    (hq : h'.registry.find? t = some q) : h.registry.find? t = some q := by
  cases he with
  | created hid =>
    rw [Registry.find?_create hid] at hq
    split at hq
    · cases hq
      exact absurd hlt (Nat.lt_irrefl _)
    · exact hq
  | removed _ =>
    rw [Registry.hold, Registry.find?_modify, Registry.find?_unregister] at hq
    split at hq
    · cases hq
    · exact hq
  | pruned _ _ =>
    rw [Registry.find?_unregister] at hq
    split at hq
    · cases hq
    · exact hq
  | _ => exact hq

theorem find?_of_forgetting {id : StreamId} (hf : Forgetting id r reply) :
    h'.registry.find? id = none := by
  unfold Forgetting at hf
  cases he with
  | found hr _ => rcases hr with rfl | rfl <;> simp at hf
  | created _ => simp at hf
  | removed _ =>
    obtain rfl : _ = id := by simpa using hf
    rw [Registry.hold, Registry.find?_modify, Registry.find?_unregister, if_pos rfl]
  | pushed _ => simp at hf
  | drained _ => simp at hf
  | dropped _ => simp at hf
  | pruned _ _ =>
    obtain rfl : _ = id := by simpa using hf
    rw [Registry.find?_unregister, if_pos rfl]
  | same _ hremove hprune _ =>
    rcases hf with rfl | ⟨n, rfl, hreply⟩
    · exact hremove id rfl
    · exact absurd hreply (hprune id n rfl)

theorem find?_of_not_forgetting {id : StreamId} {q : QueueId} (hf : ¬ Forgetting id r reply)
    (hq : h.registry.find? id = some q) : h'.registry.find? id = some q := by
  unfold Forgetting at hf
  cases he with
  | created ht => exact Registry.find?_create_of_some ht hq
  | @removed t _ _ =>
    have hne : ¬ t = id := by simpa using hf
    rw [Registry.hold, Registry.find?_modify, Registry.find?_unregister, if_neg hne]
    exact hq
  | @pruned t _ _ _ _ =>
    have hne : ¬ t = id := by simpa using hf
    rw [Registry.find?_unregister, if_neg hne]
    exact hq
  | _ => exact hq

/-- A new handle is to the registered queue, or to a queue that did not exist. -/
theorem queue_of_handle {n : Nat} {q : QueueId} (hreply : reply = .handle n q) :
    ∃ id, r.asks id = true ∧ (h.registry.find? id = some q ∨
      h.registry.find? id = none ∧ q = h.registry.queues.length) ∧
        (¬ Forgetting id r reply → h'.registry.find? id = some q) := by
  subst hreply
  cases he with
  | @found _ id _ hr hq =>
    refine ⟨id, ?_, .inl hq, fun _ => hq⟩
    rcases hr with rfl | rfl <;> exact beq_self_eq_true id
  | @created id hid =>
    refine ⟨id, beq_self_eq_true id, .inr ⟨hid, rfl⟩, fun _ => ?_⟩
    rw [Registry.find?_create hid, if_pos rfl]
  | @removed id _ hq =>
    exact ⟨id, beq_self_eq_true id, .inl hq, fun hf => absurd (.inl rfl) hf⟩
  | same hreply _ _ _ => cases hreply

end Effect

theorem eq_of_asks {r : Request} {id t : StreamId} (hid : r.asks id = true)
    (ht : r.asks t = true) : id = t := by
  cases r with
  | queue s => exact (beq_iff_eq.mp hid).symm.trans (beq_iff_eq.mp ht)
  | existing s => exact (beq_iff_eq.mp hid).symm.trans (beq_iff_eq.mp ht)
  | remove s => exact (beq_iff_eq.mp hid).symm.trans (beq_iff_eq.mp ht)
  | _ => cases hid

theorem length_queues_le_run (h : Holder) (rs : List Request) :
    h.registry.queues.length ≤ (h.run rs).registry.queues.length := by
  induction rs generalizing h with
  | nil => exact Nat.le_refl _
  | cons r rs ih => exact Nat.le_trans (h.effect_step r).length_queues_le (ih _)

theorem find?_of_run {h : Holder} {rs : List Request} {t : StreamId} {q : QueueId}
    (hlt : q < h.registry.queues.length) (hq : (h.run rs).registry.find? t = some q) :
    h.registry.find? t = some q := by
  induction rs generalizing h with
  | nil => exact hq
  | cons r rs ih =>
    have he := h.effect_step r
    exact he.find?_of_lt hlt (ih (Nat.lt_of_lt_of_le hlt he.length_queues_le) hq)

namespace Consistent

variable {h : Holder} (c : h.Consistent)
include c

/-- A queue stays registered exactly as long as its id is not forgotten. -/
theorem find?_run_iff {rs : List Request} {id : StreamId} {q : QueueId}
    (hq : h.registry.find? id = some q) :
    (h.run rs).registry.find? id = some q ↔ h.Keeps id rs := by
  induction rs generalizing h with
  | nil => exact iff_of_true hq trivial
  | cons r rs ih =>
    have he := h.effect_step r
    by_cases hf : Forgetting id r (h.step r).1
    · refine iff_of_false ?_ (fun hk => hk.1 hf)
      intro hlast
      have hlt := Nat.lt_of_lt_of_le (c.registry.lt_of_find? hq) he.length_queues_le
      have hstep := find?_of_run hlt hlast
      rw [he.find?_of_forgetting hf] at hstep
      cases hstep
    · rw [run_cons, ih (c.step r) (he.find?_of_not_forgetting hf hq)]
      exact (and_iff_right hf).symm

theorem lt_of_handle {r : Request} {reply : Reply} {h' : Holder} (he : Effect h r reply h')
    {n : Nat} {q : QueueId} (hreply : reply = .handle n q) : q < h'.registry.queues.length := by
  have hlen := he.length_queues_le
  subst hreply
  cases he with
  | found _ hq => exact Nat.lt_of_lt_of_le (c.registry.lt_of_find? hq) hlen
  | created _ => simp [Registry.create]
  | removed hq => exact Nat.lt_of_lt_of_le (c.registry.lt_of_find? hq) hlen
  | same hreply _ _ _ => cases hreply

/-- Handles that two requests for one id are answered with. -/
theorem eq_iff_keeps {id : StreamId} {first last : Request} {between : List Request}
    {n m : Nat} {p q : QueueId} (hfirst : first.asks id = true) (hlast : last.asks id = true)
    (hp : (h.step first).1 = .handle n p)
    (hq : ((h.run (first :: between)).step last).1 = .handle m q) :
    p = q ↔ h.Keeps id (first :: between) := by
  have he := h.effect_step first
  have hlt := c.lt_of_handle he hp
  -- the queue of the last handle is the first one exactly if that one is still registered
  have hregistered : p = q ↔ (h.run (first :: between)).registry.find? id = some p := by
    obtain ⟨t, ht, hlast', -⟩ := ((h.run (first :: between)).effect_step last).queue_of_handle hq
    obtain rfl := eq_of_asks ht hlast
    rcases hlast' with hfound | ⟨hnone, hnew⟩
    · rw [hfound, Option.some_inj]
      exact eq_comm
    · rw [hnone]
      refine iff_of_false ?_ (fun e => by cases e)
      rintro rfl
      have hle := (h.step first).2.length_queues_le_run between
      exact Nat.lt_irrefl _ (Nat.lt_of_lt_of_le hlt (hnew ▸ hle))
  rw [hregistered, run_cons]
  obtain ⟨t, ht, -, hafter⟩ := he.queue_of_handle hp
  obtain rfl := eq_of_asks ht hfirst
  by_cases hf : Forgetting t first (h.step first).1
  · refine iff_of_false ?_ (fun hk => hk.1 hf)
    intro hfind
    have hstep := find?_of_run hlt hfind
    rw [he.find?_of_forgetting hf] at hstep
    cases hstep
  · rw [(c.step first).find?_run_iff (hafter hf)]
    exact (and_iff_right hf).symm

/-! ### Pruning -/

theorem owners_eq (q : QueueId) :
    (h.registry.Registered q → h.registry.owners q = h.kept q + 1) ∧
      (¬ h.registry.Registered q → h.registry.owners q = h.kept q) := by
  rw [← c.handles q]
  exact c.registry.owners_eq q

/-- The registry and one handle are the two owners that `prune` asks for. -/
theorem prunable_iff {id : StreamId} {n : Nat} {q : QueueId} (hn : h.handle? n = some q) :
    h.registry.prunable id q = true ↔ h.registry.find? id = some q ∧ h.registry.items q = [] ∧
      ∀ m, h.handle? m = some q → m = n := by
  unfold Registry.prunable
  rw [Bool.and_eq_true, Bool.and_eq_true, beq_iff_eq, beq_iff_eq, List.isEmpty_iff,
    ← kept_eq_one_iff hn]
  constructor
  · rintro ⟨⟨hq, howners⟩, hitems⟩
    rw [(c.owners_eq q).1 ⟨id, hq⟩] at howners
    exact ⟨hq, hitems, Nat.succ.inj howners⟩
  · rintro ⟨hq, hitems, hkept⟩
    refine ⟨⟨hq, ?_⟩, hitems⟩
    rw [(c.owners_eq q).1 ⟨id, hq⟩, hkept]

end Consistent

/-! ## Reachable queues -/

/-- Whether the registry or a handle leads to a queue. -/
def Reachable (h : Holder) (q : QueueId) : Prop :=
  h.registry.Registered q ∨ ∃ n, h.handle? n = some q

theorem handle?_append {h : Holder} {r : Registry Job} {n : Nat} {q : QueueId}
    (hn : h.handle? n = some q) (x : Option QueueId) :
    Holder.handle? ⟨r, h.handles ++ [x]⟩ n = some q := by
  rw [handle?_eq_some] at hn ⊢
  obtain ⟨hlt, -⟩ := List.getElem?_eq_some_iff.mp hn
  dsimp only
  rw [List.getElem?_append_left hlt]
  exact hn

theorem Reachable.hold {h : Holder} {r : Registry Job} {q : QueueId} (hq : h.Reachable q)
    (hr : ∀ id, h.registry.find? id = some q → r.find? id = some q) (x : Option QueueId) :
    Reachable ⟨r, h.handles ++ [x]⟩ q := by
  rcases hq with ⟨id, hid⟩ | ⟨n, hn⟩
  · exact .inl ⟨id, hr id hid⟩
  · exact .inr ⟨n, handle?_append hn x⟩

/-- If there is a handle to a queue, it is this one alone, or there is another. -/
theorem handle?_sole_or_other {h : Holder} {q : QueueId} (hq : ∃ m, h.handle? m = some q)
    (n : Nat) : (h.handle? n = some q ∧ ∀ m, h.handle? m = some q → m = n) ∨
      ∃ m, n ≠ m ∧ h.handle? m = some q := by
  by_cases hother : ∃ m, n ≠ m ∧ h.handle? m = some q
  · exact .inr hother
  · have hsole : ∀ m, h.handle? m = some q → m = n := by
      intro m hm
      apply Decidable.byContradiction
      exact fun hne => hother ⟨m, Ne.symm hne, hm⟩
    obtain ⟨m, hm⟩ := hq
    obtain rfl := hsole m hm
    exact .inl ⟨hm, hsole⟩

/-- A request gives up the last handle to a queue that is not registered. -/
def Abandoning (h : Holder) (q : QueueId) (r : Request) : Prop :=
  ¬ h.registry.Registered q ∧
    ∃ n, r = .drop n ∧ h.handle? n = some q ∧ ∀ m, h.handle? m = some q → m = n

namespace Effect

variable {h h' : Holder} {r : Request} {reply : Reply} {q : QueueId} (he : Effect h r reply h')
include he

theorem reachable_of_not_abandoning (hq : h.Reachable q) (hitems : h.registry.items q ≠ [])
    (hr : ¬ h.Abandoning q r) : h'.Reachable q := by
  cases he with
  | found _ _ => exact hq.hold (fun _ hid => hid) _
  | created ht => exact hq.hold (fun _ hid => Registry.find?_create_of_some ht hid) _
  | @removed t p hp =>
    by_cases hpq : q = p
    · -- the handle that is given back leads to the queue
      subst hpq
      refine .inr ⟨h.handles.length, ?_⟩
      rw [handle?_eq_some]
      exact List.getElem?_concat_length
    · apply hq.hold
      intro id hid
      have hne : ¬ t = id := by
        rintro rfl
        rw [hp] at hid
        exact hpq (Option.some.inj hid).symm
      rw [Registry.hold, Registry.find?_modify, Registry.find?_unregister, if_neg hne]
      exact hid
  | pushed _ => exact hq
  | drained _ => exact hq
  | @dropped n p hn =>
    by_cases hreg : h.registry.Registered q
    · exact .inl hreg
    · rcases handle?_sole_or_other (hq.resolve_left hreg) n with ⟨hn', hsole⟩ | ⟨m, hm⟩
      · exact absurd ⟨hreg, n, rfl, hn', hsole⟩ hr
      · exact .inr ⟨m, handle?_set_none.mpr hm⟩
  | @pruned t n p _ hp =>
    rcases hq with ⟨id, hid⟩ | hn
    · refine .inl ⟨id, ?_⟩
      have hne : ¬ t = id := by
        rintro rfl
        -- a queue that is pruned has no work
        unfold Registry.prunable at hp
        rw [Bool.and_eq_true, Bool.and_eq_true, beq_iff_eq, List.isEmpty_iff, hid] at hp
        cases hp.1.1
        exact hitems hp.2
      rw [Registry.find?_unregister, if_neg hne]
      exact hid
    · exact .inr hn
  | same _ _ _ _ => exact hq

theorem not_reachable_of_abandoning (hr : h.Abandoning q r) : ¬ h'.Reachable q := by
  obtain ⟨hreg, n, rfl, hn, hsole⟩ := hr
  cases he with
  | @dropped _ p hp =>
    rintro (hid | ⟨m, hm⟩)
    · exact hreg hid
    · obtain ⟨hne, hm⟩ := handle?_set_none.mp hm
      exact hne (hsole m hm).symm
  | found hr _ => rcases hr with hr | hr <;> cases hr
  | same _ _ _ hdrop => exact absurd hn (hdrop n q rfl)

/-- Only a drain takes jobs from a queue. -/
theorem mem_items {job : Job} (hjob : job ∈ h.registry.items q)
    (hr : ∀ n, r = .drain n → h.handle? n ≠ some q) : job ∈ h'.registry.items q := by
  cases he with
  | found _ _ =>
    rw [Registry.items_hold]
    exact hjob
  | @created id hid =>
    have hsame := h.registry.items_queue id q
    unfold Registry.queue at hsame
    rw [hid] at hsame
    rw [← hsame] at hjob
    exact hjob
  | removed _ =>
    rw [Registry.items_hold]
    exact hjob
  | pushed _ => exact h.registry.mem_items_push _ _ hjob
  | @drained n p hn =>
    have hne : q ≠ p := by
      rintro rfl
      exact hr n rfl hn
    rw [Registry.items_modify_of_ne _ hne]
    exact hjob
  | dropped _ =>
    rw [Registry.items_release]
    exact hjob
  | pruned _ _ => exact hjob
  | same _ _ _ _ => exact hjob

end Effect

/-! ## Runs -/

/-- What holders can rely on. -/
structure Sharing (h : Holder) : Prop where
  owners : ∀ q, (h.registry.Registered q → h.registry.owners q = h.kept q + 1) ∧
    (¬ h.registry.Registered q → h.registry.owners q = h.kept q)
  /-- A queue is registered under one id, now and later. -/
  once : ∀ later id id' q, h.registry.find? id = some q →
    (h.run later).registry.find? id' = some q → id = id'
  prune : ∀ id n q, h.handle? n = some q → ∃ done, (h.step (.prune id n)).1 = .flag done ∧
    (done = true ↔ h.registry.find? id = some q ∧ h.registry.items q = [] ∧
      ∀ m, h.handle? m = some q → m = n) ∧
    (done = true → (h.step (.prune id n)).2 = { h with registry := h.registry.unregister id }) ∧
    (done = false → (h.step (.prune id n)).2 = h)
  /-- Two handles for one id are handles to one queue unless the id was forgotten in between. A
  removal forgets it right after its own handle was obtained. -/
  same : ∀ id first between last n m p q, first.asks id = true → last.asks id = true →
    (h.step first).1 = .handle n p → ((h.run (first :: between)).step last).1 = .handle m q →
      (p = q ↔ h.Keeps id (first :: between))
  forgotten : ∀ id r, Forgetting id r (h.step r).1 → (h.step r).2.registry.find? id = none
  /-- A queue that is created is none of those for which there ever was a handle. -/
  fresh : ∀ id r later n m p q, (h.step r).1 = .handle n p →
    (h.run (r :: later)).registry.find? id = none →
      ((h.run (r :: later)).step (.queue id)).1 = .handle m q → p ≠ q
  /-- Only a drain takes jobs from a queue. -/
  jobs : ∀ r q, (∀ n, r = .drain n → h.handle? n ≠ some q) →
    ∀ job ∈ h.registry.items q, job ∈ (h.step r).2.registry.items q
  /-- Work gets out of reach with the last handle to an unregistered queue, and in no other way. -/
  reach : ∀ r q, h.Reachable q → h.registry.items q ≠ [] →
    ((h.step r).2.Reachable q ↔ ¬ h.Abandoning q r)
  /-- An id has a queue from then on, the one that it had if it had one. -/
  queue : ∀ id, ∃ q, (h.step (.queue id)).1 = .handle h.handles.length q ∧
    (h.step (.queue id)).2.registry.find? id = some q ∧
      ∀ p, h.registry.find? id = some p → p = q
  existing : ∀ id, (∀ q, h.registry.find? id = some q →
      (h.step (.existing id)).1 = .handle h.handles.length q) ∧
    (h.registry.find? id = none → h.step (.existing id) = (.nothing, h))
  push : ∀ n job q, h.handle? n = some q → (h.step (.push n job)).1 = .nothing ∧
    ∀ p, (h.step (.push n job)).2.registry.items p =
      if p = q then h.registry.items q ++ [job] else h.registry.items p

theorem step_queue (h : Holder) (id : StreamId) :
    ∃ q, (h.step (.queue id)).1 = .handle h.handles.length q ∧
      (h.step (.queue id)).2.registry.find? id = some q ∧
        ∀ p, h.registry.find? id = some p → p = q := by
  refine ⟨(h.registry.queue id).1, rfl, h.registry.find?_queue_self id, fun p hp => ?_⟩
  unfold Registry.queue
  rw [hp]

theorem step_existing (h : Holder) (id : StreamId) :
    (∀ q, h.registry.find? id = some q →
        (h.step (.existing id)).1 = .handle h.handles.length q) ∧
      (h.registry.find? id = none → h.step (.existing id) = (.nothing, h)) := by
  dsimp only [step, Registry.existing]
  constructor
  · intro q hq
    rw [hq]
    rfl
  · intro hnone
    rw [hnone]
    rfl

theorem Consistent.push {h : Holder} (c : h.Consistent) {n : Nat} {q : QueueId}
    (hn : h.handle? n = some q) (job : Job) :
    (h.step (.push n job)).1 = .nothing ∧
      ∀ p, (h.step (.push n job)).2.registry.items p =
        if p = q then h.registry.items q ++ [job] else h.registry.items p := by
  have hstep : h.step (.push n job) =
      (.nothing, { h with registry := h.registry.push q job }) := by
    dsimp only [Holder.step, withHandle]
    rw [hn]
  rw [hstep]
  exact ⟨rfl, h.registry.items_push (c.created n q hn) job⟩

theorem Consistent.prune {h : Holder} (c : h.Consistent) {n : Nat} {q : QueueId}
    (hn : h.handle? n = some q) (id : StreamId) :
    ∃ done, (h.step (.prune id n)).1 = .flag done ∧
      (done = true ↔ h.registry.find? id = some q ∧ h.registry.items q = [] ∧
        ∀ m, h.handle? m = some q → m = n) ∧
      (done = true → (h.step (.prune id n)).2 = { h with registry := h.registry.unregister id }) ∧
      (done = false → (h.step (.prune id n)).2 = h) := by
  have hstep : h.step (.prune id n) =
      (.flag (h.registry.prunable id q), { h with registry := h.registry.prune id q }) := by
    dsimp only [Holder.step, withHandle]
    rw [hn]
  rw [hstep]
  refine ⟨_, rfl, c.prunable_iff hn, ?_, ?_⟩
  · intro hp
    unfold Registry.prune
    rw [if_pos hp]
  · intro hp
    rw [Registry.prune_eq_self hp]

theorem Consistent.sharing {h : Holder} (c : h.Consistent) : h.Sharing where
  owners := c.owners_eq
  once later id id' q hq hlater :=
    c.registry.find?_inj hq (find?_of_run (c.registry.lt_of_find? hq) hlater)
  prune id n q hn := c.prune hn id
  same id first between last n m p q hfirst hlast hp hq :=
    c.eq_iff_keeps hfirst hlast hp hq
  forgotten id r hf := (h.effect_step r).find?_of_forgetting hf
  fresh id r later n m p q hp hnone hq := by
    have hlt := c.lt_of_handle (h.effect_step r) hp
    have hle := (h.step r).2.length_queues_le_run later
    obtain ⟨t, ht, hfound | ⟨-, hnew⟩, -⟩ :=
      ((h.run (r :: later)).effect_step (.queue id)).queue_of_handle hq
    · obtain rfl : id = t := beq_iff_eq.mp ht
      rw [hnone] at hfound
      cases hfound
    · rintro rfl
      exact Nat.lt_irrefl _ (Nat.lt_of_lt_of_le hlt (hnew ▸ hle))
  jobs r q hr job hjob := (h.effect_step r).mem_items hjob hr
  reach r q hq hitems := by
    have he := h.effect_step r
    constructor
    · exact fun hafter hr => he.not_reachable_of_abandoning hr hafter
    · exact he.reachable_of_not_abandoning hq hitems
  queue := h.step_queue
  existing := h.step_existing
  push _ job _ hn := c.push hn job

/-- Whatever is done with the handles to the queues of one registry: its queues are found, counted,
pruned and told apart as `Sharing` says, at any time. -/
theorem sharing_run (rs : List Request) : (({} : Holder).run rs).Sharing :=
  (consistent_empty.run rs).sharing

/-- An id that is forgotten and registered again stands for another queue, while the handles to the
first one go on. -/
example :
    (({} : Holder).replies [.queue 7, .existing 7, .prune 7 0, .drop 1, .prune 7 0, .queue 7]).map
      Reply.queue? = [some 0, some 0, none, none, none, some 1] := by decide

end Holder

end StreamMemory
