import StreamMemory.FreeLists

/-!
# Stream operations

An operation is a list of acts, run in order when its stream is drained. It works with streams, with
the contents of blocks, and it releases blocks; it requests none, and runs no release pass. Its
weight bounds what it can still set in motion: every act counts one, waiting in a queue counts one,
and so does a drain that an act opens.
-/

set_option autoImplicit false

namespace StreamMemory

abbrev ResourceId := Nat

inductive Act where
  | mark (label : String)
  | panic
  | write (block : BlockId) (byte : UInt8) (length offset : Nat)
  | read (block : BlockId) (length offset : Nat)
  | enqueue (stream : StreamId) (acts : List Act)
  | synchronize (stream : StreamId)
  | destroy (stream : StreamId)
  | pending (stream : StreamId)
  /-- Releases a block in the order of the key's stream. -/
  | free (resource : ResourceId) (block : BlockId) (key : BlockKey)

abbrev Operation := List Act

namespace Act

/-- Whether the act itself reads or writes a block. -/
def accesses (b : BlockId) : Act → Bool
  | write block .. => block == b
  | read block .. => block == b
  | _ => false

end Act

namespace Operation

mutual
def actWeight : Act → Nat
  | .enqueue _ acts => 2 + weight acts
  | .synchronize _ => 2
  | .destroy _ => 2
  | _ => 1

def weight : Operation → Nat
  | [] => 0
  | a :: rest => actWeight a + weight rest
end

/-- Whether an act of the operation reads or writes a block. -/
def accesses (op : Operation) (b : BlockId) : Bool := op.any (Act.accesses b)

theorem actWeight_pos (a : Act) : 0 < actWeight a := by
  cases a <;> simp only [actWeight] <;> omega

@[simp] theorem weight_nil : weight [] = 0 := by rw [weight]

@[simp] theorem weight_cons (a : Act) (op : Operation) :
    weight (a :: op) = actWeight a + weight op := by rw [weight]

/-- The weight of a queue of operations. -/
def queueWeight (ops : List Operation) : Nat := total (fun op => weight op + 1) ops

@[simp] theorem queueWeight_nil : queueWeight [] = 0 := rfl

@[simp] theorem queueWeight_cons (op : Operation) (ops : List Operation) :
    queueWeight (op :: ops) = weight op + 1 + queueWeight ops := by
  simp [queueWeight]

@[simp] theorem queueWeight_append (p q : List Operation) :
    queueWeight (p ++ q) = queueWeight p + queueWeight q := by
  simp [queueWeight]

end Operation

end StreamMemory
