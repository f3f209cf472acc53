import StreamMemory.KeyedList

/-!
# Queue registry

Queues of items, registered under the ids of streams. A queue is shared between the registry and
the holders of its handles, so it can outlive its registration, and an id can be registered again
for a queue of its own. Queues are numbered in the order in which they are created.
-/

set_option autoImplicit false

namespace StreamMemory

abbrev StreamId := Nat

abbrev QueueId := Nat

structure Queue (α : Type) where
  items : List α := []
  handles : Nat := 0
  deriving DecidableEq, Repr, Inhabited

structure Registry (α : Type) where
  queues : List (Queue α) := []
  table : KeyedList StreamId QueueId := []
  deriving DecidableEq, Repr, Inhabited

namespace Registry

variable {α : Type}

def find? (r : Registry α) (id : StreamId) : Option QueueId :=
  r.table.get? id

def items (r : Registry α) (q : QueueId) : List α :=
  (r.queues[q]?.map Queue.items).getD []

def handles (r : Registry α) (q : QueueId) : Nat :=
  (r.queues[q]?.map Queue.handles).getD 0

/-- How many share a queue: its handles, and the registry if the queue is registered. -/
def owners (r : Registry α) (q : QueueId) : Nat :=
  r.handles q + r.table.countP (fun entry => entry.2 == q)

def modify (r : Registry α) (q : QueueId) (f : Queue α → Queue α) : Registry α :=
  { r with queues := r.queues.modify q f }

def unregister (r : Registry α) (id : StreamId) : Registry α :=
  { r with table := r.table.erase id }

def hold (r : Registry α) (q : QueueId) : Registry α :=
  r.modify q fun x => { x with handles := x.handles + 1 }

def release (r : Registry α) (q : QueueId) : Registry α :=
  r.modify q fun x => { x with handles := x.handles - 1 }

def create (r : Registry α) (id : StreamId) : Registry α where
  queues := r.queues ++ [⟨[], 1⟩]
  table := r.table ++ [(id, r.queues.length)]

/-- A handle to the queue of a stream, which is created if there is none. -/
def queue (r : Registry α) (id : StreamId) : QueueId × Registry α :=
  match r.find? id with
  | some q => (q, r.hold q)
  | none => (r.queues.length, r.create id)

def existing (r : Registry α) (id : StreamId) : Option (QueueId × Registry α) :=
  (r.find? id).map fun q => (q, r.hold q)

/-- Unregisters the queue of a stream. The registry's share becomes the handle given back. -/
def remove (r : Registry α) (id : StreamId) : Option (QueueId × Registry α) :=
  (r.find? id).map fun q => (q, (r.unregister id).hold q)

/-- Whether `q` is registered for `id`, is empty, and is held by one handle only. -/
def prunable (r : Registry α) (id : StreamId) (q : QueueId) : Bool :=
  r.find? id == some q && r.owners q == 2 && (r.items q).isEmpty

/-- Unregisters `id` if its queue `q` is held by one handle only and has nothing to do. -/
def prune (r : Registry α) (id : StreamId) (q : QueueId) : Registry α :=
  if r.prunable id q then r.unregister id else r

def push (r : Registry α) (q : QueueId) (a : α) : Registry α :=
  r.modify q fun x => { x with items := x.items ++ [a] }

def pop (r : Registry α) (q : QueueId) : Option (α × Registry α) :=
  match r.items q with
  | [] => none
  | a :: as => some (a, r.modify q fun x => { x with items := as })

def waiting (r : Registry α) (id : StreamId) : List α :=
  match r.find? id with
  | some q => r.items q
  | none => []

/-- Appends an item to the queue of a stream, which is created if there is none. -/
def enqueue (r : Registry α) (id : StreamId) (a : α) : Registry α :=
  ((r.queue id).2.push (r.queue id).1 a).release (r.queue id).1

theorem items_modify (r : Registry α) (q : QueueId) (f : Queue α → Queue α)
    (hf : ∀ x, (f x).items = x.items) (p : QueueId) : (r.modify q f).items p = r.items p := by
  simp only [items, modify, List.getElem?_modify]
  cases r.queues[p]? with
  | none => rfl
  | some x => by_cases h : q = p <;> simp [h, hf]

@[simp] theorem items_hold (r : Registry α) (q p : QueueId) : (r.hold q).items p = r.items p := by
  rw [hold, items_modify]
  exact fun _ => rfl

@[simp] theorem items_release (r : Registry α) (q p : QueueId) :
    (r.release q).items p = r.items p := by
  rw [release, items_modify]
  exact fun _ => rfl

@[simp] theorem items_unregister (r : Registry α) (id : StreamId) (p : QueueId) :
    (r.unregister id).items p = r.items p := rfl

@[simp] theorem items_prune (r : Registry α) (id : StreamId) (q p : QueueId) :
    (r.prune id q).items p = r.items p := by
  unfold prune
  split <;> simp

theorem items_push (r : Registry α) {q : QueueId} (hq : q < r.queues.length) (a : α)
    (p : QueueId) : (r.push q a).items p = if p = q then r.items q ++ [a] else r.items p := by
  simp only [items, push, modify, List.getElem?_modify]
  by_cases h : p = q
  · subst h
    simp [List.getElem?_eq_getElem hq]
  · have h' : ¬ q = p := fun e => h e.symm
    cases hp : r.queues[p]? <;> simp [h, h']

@[simp] theorem find?_modify (r : Registry α) (q : QueueId) (f : Queue α → Queue α)
    (id : StreamId) : (r.modify q f).find? id = r.find? id := rfl

theorem find?_unregister (r : Registry α) (id id' : StreamId) :
    (r.unregister id).find? id' = if id = id' then none else r.find? id' :=
  KeyedList.get?_erase id id' r.table

theorem find?_create {r : Registry α} {id : StreamId} (hid : r.find? id = none) (t : StreamId) :
    (r.create id).find? t = if t = id then some r.queues.length else r.find? t := by
  have ht : (r.create id).find? t = (r.find? t).or (KeyedList.get? t [(id, r.queues.length)]) :=
    KeyedList.get?_append t r.table _
  rw [ht]
  by_cases h : t = id
  · subst h
    simp [hid, KeyedList.get?]
  · have h' : ¬ id = t := fun e => h e.symm
    simp [KeyedList.get?, h, h']

theorem items_create_of_lt {r : Registry α} {q : QueueId} (hq : q < r.queues.length)
    (id : StreamId) : (r.create id).items q = r.items q := by
  simp [items, create, List.getElem?_append_left hq]

theorem items_create_new (r : Registry α) (id : StreamId) :
    (r.create id).items r.queues.length = [] := by
  simp [items, create]

section Effects
variable (r : Registry α)

@[simp] theorem length_queues_modify (q : QueueId) (f : Queue α → Queue α) :
    (r.modify q f).queues.length = r.queues.length := by
  simp [modify]

theorem length_queues_le_queue (id : StreamId) :
    r.queues.length ≤ (r.queue id).2.queues.length := by
  unfold queue
  split
  · simp [hold]
  · simp [create]

theorem find?_queue (id t : StreamId) :
    (r.queue id).2.find? t = if t = id then some (r.queue id).1 else r.find? t := by
  unfold queue
  split
  · rename_i q hq
    by_cases h : t = id
    · subst h
      simp [hold, hq]
    · simp [hold, h]
  · rename_i hid
    exact find?_create hid t

theorem find?_enqueue (id t : StreamId) (a : α) :
    (r.enqueue id a).find? t = if t = id then some (r.queue id).1 else r.find? t := by
  unfold enqueue
  rw [release, find?_modify, push, find?_modify, find?_queue]

theorem length_queues_le_enqueue (id : StreamId) (a : α) :
    r.queues.length ≤ (r.enqueue id a).queues.length := by
  have h := r.length_queues_le_queue id
  simpa [enqueue, release, push] using h

theorem items_enqueue_of_unregistered {id : StreamId} {q : QueueId} (hlt : q < r.queues.length)
    (hq : ∀ t, r.find? t ≠ some q) (a : α) : (r.enqueue id a).items q = r.items q := by
  have hne : q ≠ (r.queue id).1 := by
    unfold queue
    split
    · rename_i p hp
      rintro rfl
      exact hq id hp
    · exact Nat.ne_of_lt hlt
  unfold enqueue
  rw [items_release]
  have hpush : ((r.queue id).2.push (r.queue id).1 a).items q = (r.queue id).2.items q := by
    simp only [items, push, modify, List.getElem?_modify, if_neg (Ne.symm hne)]
    simp
  rw [hpush]
  unfold queue
  split
  · exact items_hold r _ q
  · exact items_create_of_lt hlt id

theorem pop_eq_none_iff (q : QueueId) : r.pop q = none ↔ r.items q = [] := by
  unfold pop
  split <;> simp_all

theorem items_pop {r r' : Registry α} {q : QueueId} {a : α} (h : r.pop q = some (a, r')) :
    r.items q = a :: r'.items q ∧ (∀ p, p ≠ q → r'.items p = r.items p) ∧
      (∀ t, r'.find? t = r.find? t) ∧ r'.queues.length = r.queues.length := by
  unfold pop at h
  split at h
  · cases h
  · rename_i b as hb
    cases h
    refine ⟨?_, ?_, fun t => find?_modify r q _ t, length_queues_modify r q _⟩
    · rw [hb]
      have hq : q < r.queues.length := by
        apply Nat.lt_of_not_le
        intro hle
        simp [items, List.getElem?_eq_none hle] at hb
      simp [items, modify, hq]
    · intro p hp
      have hqp : ¬ q = p := fun e => hp e.symm
      simp [items, modify, hqp]

theorem waiting_of_find? {id : StreamId} {q : QueueId} (h : r.find? id = some q) :
    r.waiting id = r.items q := by
  simp [waiting, h]

theorem waiting_unregister (id t : StreamId) :
    (r.unregister id).waiting t = if t = id then [] else r.waiting t := by
  unfold waiting
  rw [find?_unregister]
  by_cases h : t = id
  · subst h
    simp
  · have h' : ¬ id = t := fun e => h e.symm
    simp [h, h']

theorem waiting_hold (q : QueueId) (t : StreamId) : (r.hold q).waiting t = r.waiting t := by
  unfold waiting
  rw [hold, find?_modify, ← hold]
  split <;> simp

theorem waiting_release (q : QueueId) (t : StreamId) : (r.release q).waiting t = r.waiting t := by
  unfold waiting
  rw [release, find?_modify, ← release]
  split <;> simp

theorem waiting_prune (id : StreamId) (q : QueueId) (t : StreamId) :
    (r.prune id q).waiting t = r.waiting t := by
  unfold prune
  split
  · rename_i h
    rw [waiting_unregister]
    split
    · rename_i ht
      subst ht
      simp only [prunable, Bool.and_eq_true, beq_iff_eq, List.isEmpty_iff] at h
      rw [r.waiting_of_find? h.1.1, h.2]
    · rfl
  · rfl

end Effects

theorem prune_eq_self {r : Registry α} {id : StreamId} {q : QueueId}
    (h : r.prunable id q = false) : r.prune id q = r := by
  simp [prune, h]

end Registry

end StreamMemory
