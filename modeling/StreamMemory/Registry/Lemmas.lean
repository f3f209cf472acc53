import StreamMemory.Registry.Basic

/-!
# Well-formed registries

In a well-formed registry every registered queue exists, an id is registered once, and a queue is
registered under one id. Every operation keeps this. In such a registry an operation on one stream
leaves the items of all other streams as they were.
-/

set_option autoImplicit false

namespace StreamMemory

namespace Registry

variable {α : Type}

structure WellFormed (r : Registry α) : Prop where
  created : ∀ e ∈ r.table, e.2 < r.queues.length
  ids : (r.table.map Prod.fst).Nodup
  queues : (r.table.map Prod.snd).Nodup

theorem wellFormed_empty : ({} : Registry α).WellFormed :=
  ⟨fun _ h => (by cases h), List.nodup_nil, List.nodup_nil⟩

theorem find?_queue_self (r : Registry α) (id : StreamId) :
    (r.queue id).2.find? id = some (r.queue id).1 := by
  unfold Registry.queue
  split
  · assumption
  · rename_i hid
    simp [find?_create hid]

theorem items_queue (r : Registry α) (id : StreamId) (q : QueueId) :
    (r.queue id).2.items q = r.items q := by
  unfold Registry.queue
  split
  · exact items_hold r _ q
  · by_cases hlt : q < r.queues.length
    · exact items_create_of_lt hlt id
    · have hle : r.queues.length ≤ q := Nat.le_of_not_lt hlt
      have hnone : r.items q = [] := by
        simp [items, List.getElem?_eq_none hle]
      rw [hnone]
      rcases Nat.lt_or_eq_of_le hle with hgt | rfl
      · have hlen : (r.create id).queues.length ≤ q := by
          rw [create, List.length_append]
          exact hgt
        simp [items, List.getElem?_eq_none hlen]
      · exact items_create_new r id

theorem mem_items_enqueue {r : Registry α} {id : StreamId} {a b : α} {q : QueueId}
    (h : b ∈ (r.enqueue id a).items q) : b ∈ r.items q ∨ b = a := by
  unfold Registry.enqueue at h
  rw [items_release] at h
  rw [← r.items_queue id q]
  unfold push items modify at h
  dsimp only at h
  rw [List.getElem?_modify] at h
  unfold items
  cases hq : (r.queue id).2.queues[q]? with
  | none => simp [hq] at h
  | some x =>
    rw [hq] at h
    split at h
    · exact (List.mem_append.mp h).imp_right List.mem_singleton.mp
    · exact .inl h

namespace WellFormed

variable {r : Registry α} (h : r.WellFormed)
include h

theorem modify (q : QueueId) (f : Queue α → Queue α) : (r.modify q f).WellFormed :=
  ⟨by simpa [Registry.modify] using h.created, h.ids, h.queues⟩

theorem hold (q : QueueId) : (r.hold q).WellFormed := h.modify q _

theorem release (q : QueueId) : (r.release q).WellFormed := h.modify q _

theorem push (q : QueueId) (a : α) : (r.push q a).WellFormed := h.modify q _

theorem unregister (id : StreamId) : (r.unregister id).WellFormed := by
  have hs := KeyedList.erase_sublist id r.table
  exact ⟨fun e he => h.created e (hs.subset he), h.ids.sublist (hs.map _), h.queues.sublist (hs.map _)⟩

theorem prune (id : StreamId) (q : QueueId) : (r.prune id q).WellFormed := by
  unfold Registry.prune
  split
  · exact h.unregister id
  · exact h

theorem pop {q : QueueId} {a : α} {r' : Registry α} (hp : r.pop q = some (a, r')) :
    r'.WellFormed := by
  unfold Registry.pop at hp
  split at hp
  · cases hp
  · cases hp
    exact h.modify q _

theorem lt_of_find? {id : StreamId} {q : QueueId} (hq : r.find? id = some q) :
    q < r.queues.length :=
  h.created _ (KeyedList.mem_of_get? hq)

theorem find?_inj {s t : StreamId} {q : QueueId} (hs : r.find? s = some q)
    (ht : r.find? t = some q) : s = t :=
  KeyedList.key_eq_of_mem h.queues (KeyedList.mem_of_get? hs) (KeyedList.mem_of_get? ht)

theorem queue (id : StreamId) : (r.queue id).2.WellFormed := by
  unfold Registry.queue
  split
  · exact h.hold _
  · rename_i hid
    have hid' := (KeyedList.get?_eq_none_iff id r.table).mp hid
    refine ⟨?_, ?_, ?_⟩
    · intro e he
      have hlen : (r.create id).queues.length = r.queues.length + 1 := List.length_append
      rw [hlen]
      rcases List.mem_append.mp he with he | he
      · exact Nat.lt_succ_of_lt (h.created e he)
      · rw [List.mem_singleton] at he
        subst he
        exact Nat.lt_succ_self _
    · rw [create, List.map_append, List.nodup_append]
      refine ⟨h.ids, by simp, ?_⟩
      intro i hi j hj hij
      obtain ⟨e, he, rfl⟩ := List.mem_map.mp hi
      simp only [List.map_cons, List.map_nil, List.mem_singleton] at hj
      exact hid' e he (hij.trans hj)
    · rw [create, List.map_append, List.nodup_append]
      refine ⟨h.queues, by simp, ?_⟩
      intro i hi j hj hij
      obtain ⟨e, he, rfl⟩ := List.mem_map.mp hi
      simp only [List.map_cons, List.map_nil, List.mem_singleton] at hj
      exact Nat.lt_irrefl _ ((hij.trans hj) ▸ h.created e he)

theorem enqueue (id : StreamId) (a : α) : (r.enqueue id a).WellFormed :=
  ((h.queue id).push _ _).release _

theorem existing {id : StreamId} {q : QueueId} {r' : Registry α}
    (he : r.existing id = some (q, r')) : r'.WellFormed := by
  obtain ⟨p, -, e⟩ := Option.map_eq_some_iff.mp he
  cases e
  exact h.hold _

theorem remove {id : StreamId} {q : QueueId} {r' : Registry α}
    (he : r.remove id = some (q, r')) : r'.WellFormed := by
  obtain ⟨p, -, e⟩ := Option.map_eq_some_iff.mp he
  cases e
  exact (h.unregister id).hold _

theorem waiting_queue (id t : StreamId) : (r.queue id).2.waiting t = r.waiting t := by
  unfold Registry.queue
  split
  · unfold Registry.waiting
    rw [Registry.hold, find?_modify, ← Registry.hold]
    split <;> simp
  · rename_i hid
    unfold Registry.waiting
    dsimp only
    rw [find?_create hid]
    by_cases ht : t = id
    · subst ht
      simp [hid, items_create_new]
    · rw [if_neg ht]
      split
      · exact items_create_of_lt (h.lt_of_find? (by assumption)) id
      · rfl

theorem waiting_enqueue (id t : StreamId) (a : α) :
    (r.enqueue id a).waiting t = if t = id then r.waiting id ++ [a] else r.waiting t := by
  have hw := h.queue id
  have hself := r.find?_queue_self id
  have hlt := hw.lt_of_find? hself
  rw [← h.waiting_queue id t, ← h.waiting_queue id id]
  unfold Registry.enqueue Registry.waiting
  rw [Registry.release, find?_modify, Registry.push, find?_modify, ← Registry.push,
    ← Registry.release]
  by_cases ht : t = id
  · subst ht
    rw [hself, if_pos rfl]
    simp [items_push _ hlt]
  · rw [if_neg ht]
    split
    · rename_i p hp
      rw [items_release, items_push _ hlt, if_neg]
      rintro rfl
      exact ht (hw.find?_inj hp hself)
    · rfl

theorem waiting_pop {q : QueueId} {a : α} {r' : Registry α} (hp : r.pop q = some (a, r'))
    (t : StreamId) :
    r.waiting t = if r.find? t = some q then a :: r'.waiting t else r'.waiting t := by
  unfold Registry.pop at hp
  split at hp
  · cases hp
  · rename_i b as hb
    cases hp
    unfold Registry.waiting
    rw [find?_modify]
    cases ht : r.find? t with
    | none => simp
    | some p =>
      have hlt := h.lt_of_find? ht
      by_cases hpq : p = q
      · subst hpq
        simp only [hb, if_true]
        simp [items, Registry.modify, hlt]
      · have hqp : ¬ q = p := fun e => hpq e.symm
        simp [items, Registry.modify, hpq, hqp]

end WellFormed

end Registry

end StreamMemory
