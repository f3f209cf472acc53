import StreamMemory.Registry.Job
import StreamMemory.Registry.Basic

/-!
# Holding queues

A holder keeps numbered handles to the queues of one registry. A handle that was given up keeps its
number and is refused from then on.
-/

set_option autoImplicit false

namespace StreamMemory

structure Holder where
  registry : Registry Job := {}
  handles : List (Option QueueId) := []

namespace Holder

inductive Request where
  | queue (id : StreamId)
  | existing (id : StreamId)
  | remove (id : StreamId)
  | known (id : StreamId)
  | push (handle : Nat) (job : Job)
  | drain (handle : Nat)
  | length (handle : Nat)
  | drop (handle : Nat)
  | prune (id : StreamId) (handle : Nat)

inductive Reply where
  | nothing
  | handle (handle : Nat) (queue : QueueId)
  | flag (value : Bool)
  | length (n : Nat)
  | drained (outcome : Job.Drained)
  | noSuchHandle

def handle? (h : Holder) (n : Nat) : Option QueueId := h.handles[n]?.join

def keep (h : Holder) (obtained : QueueId × Registry Job) : Reply × Holder :=
  (.handle h.handles.length obtained.1,
    { registry := obtained.2, handles := h.handles ++ [some obtained.1] })

def keepAny (h : Holder) : Option (QueueId × Registry Job) → Reply × Holder
  | some obtained => h.keep obtained
  | none => (.nothing, h)

def withHandle (h : Holder) (n : Nat) (f : QueueId → Reply × Holder) : Reply × Holder :=
  match h.handle? n with
  | some q => f q
  | none => (.noSuchHandle, h)

def step (h : Holder) : Request → Reply × Holder
  | .queue id => h.keep (h.registry.queue id)
  | .existing id => h.keepAny (h.registry.existing id)
  | .remove id => h.keepAny (h.registry.remove id)
  | .known id => (.flag (h.registry.find? id).isSome, h)
  | .push n job => h.withHandle n fun q =>
    (.nothing, { h with registry := h.registry.push q job })
  | .drain n => h.withHandle n fun q =>
    (.drained (Job.drain (h.registry.items q)),
      { h with registry := h.registry.modify q fun x => { x with items := [] } })
  | .length n => h.withHandle n fun q => (.length (h.registry.items q).length, h)
  | .drop n => h.withHandle n fun q =>
    (.nothing, { registry := h.registry.release q, handles := h.handles.set n none })
  | .prune id n => h.withHandle n fun q =>
    (.flag (h.registry.prunable id q), { h with registry := h.registry.prune id q })

def replies (h : Holder) : List Request → List Reply
  | [] => []
  | r :: rs => (h.step r).1 :: (h.step r).2.replies rs

theorem length_replies (h : Holder) (rs : List Request) : (h.replies rs).length = rs.length := by
  induction rs generalizing h with
  | nil => rfl
  | cons r rs ih => simp [replies, ih]

end Holder

end StreamMemory
