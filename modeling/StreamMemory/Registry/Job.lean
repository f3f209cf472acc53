import StreamMemory.Total

/-!
# Jobs

A job is a list of acts that touch only the queue on which the job waits: it reports, asks for the
length of that queue, panics, or pushes further jobs on it. `drain` runs a queue until it is empty.
It ends because a job only pushes jobs that are part of it (`weight_perform`).
-/

set_option autoImplicit false

namespace StreamMemory

inductive JobAct where
  | mark (label : String)
  | panic
  | push (acts : List JobAct)
  | length

abbrev Job := List JobAct

inductive JobReport where
  | mark (label : String)
  | length (n : Nat)
  deriving DecidableEq, Repr

namespace Job

mutual
def actWeight : JobAct → Nat
  | .push acts => 2 + weight acts
  | _ => 1

def weight : Job → Nat
  | [] => 0
  | a :: rest => actWeight a + weight rest
end

/-- The weight of a queue; waiting itself counts one. -/
def queueWeight (queue : List Job) : Nat := total (fun j => weight j + 1) queue

@[simp] theorem queueWeight_append (p q : List Job) :
    queueWeight (p ++ q) = queueWeight p + queueWeight q := by
  simp [queueWeight]

@[simp] theorem queueWeight_cons (j : Job) (q : List Job) :
    queueWeight (j :: q) = weight j + 1 + queueWeight q := by
  simp [queueWeight]

@[simp] theorem queueWeight_nil : queueWeight [] = 0 := rfl

structure Outcome where
  /-- The queue after the job, with the jobs that it pushed. -/
  queue : List Job
  reports : List JobReport
  panicked : Bool

/-- Runs the acts of a job beside the rest of its queue. Acts after a panic are lost. -/
def perform : Job → List Job → Outcome
  | [], queue => ⟨queue, [], false⟩
  | .panic :: _, queue => ⟨queue, [], true⟩
  | .mark label :: rest, queue =>
    let o := perform rest queue
    { o with reports := .mark label :: o.reports }
  | .length :: rest, queue =>
    let o := perform rest queue
    { o with reports := .length queue.length :: o.reports }
  | .push job :: rest, queue => perform rest (queue ++ [job])

theorem weight_perform (j : Job) (queue : List Job) :
    queueWeight (perform j queue).queue ≤ weight j + queueWeight queue := by
  fun_induction perform j queue with
  | case1 => simp [weight]
  | case2 => simp
  | case3 _ _ _ o ih =>
    simp only [weight, actWeight, o]
    omega
  | case4 _ _ o ih =>
    simp only [weight, actWeight, o]
    omega
  | case5 _ _ _ ih =>
    simp only [weight, actWeight, queueWeight_append, queueWeight_cons, queueWeight_nil] at ih ⊢
    omega

structure Drained where
  failed : Nat := 0
  reports : List JobReport := []

/-- Runs every job of a queue in order, also those pushed meanwhile, and counts the panics. -/
def drain (queue : List Job) : Drained :=
  match queue with
  | [] => {}
  | j :: rest =>
    let o := perform j rest
    let d := drain o.queue
    ⟨(if o.panicked then 1 else 0) + d.failed, o.reports ++ d.reports⟩
termination_by queueWeight queue
decreasing_by
  have := weight_perform j rest
  simp only [queueWeight_cons]
  omega

end Job

end StreamMemory
