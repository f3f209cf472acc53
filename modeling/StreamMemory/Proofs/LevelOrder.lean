import Mathlib.Logic.Relation
import StreamMemory.Registry.Holder

/-!
# Drains in level order

The jobs that jobs push form a forest under the jobs that wait at first; a job that panics has only
the children that it pushed before. A queue is drained act by act (`Shift.step`), and what is
started comes level by level: first what waited, then all that this pushed, and so on. The invariant
says that what was started and what waits is what was ever pushed, which is what waited at first and
the children of what was started. Only the level order solves that equation (`eq_levelOrder`).
-/

set_option autoImplicit false

namespace StreamMemory

namespace Job

/-! ## Forests -/

/-- The jobs that a job pushes before it ends or panics. -/
def children : Job → List Job
  | [] => []
  | .panic :: _ => []
  | .push job :: rest => job :: children rest
  | _ :: rest => children rest

def panics : Job → Bool
  | [] => false
  | .panic :: _ => true
  | _ :: rest => panics rest

theorem queueWeight_children_le (j : Job) : queueWeight (children j) ≤ weight j := by
  induction j with
  | nil => exact Nat.le_refl _
  | cons a rest ih =>
    rw [weight]
    cases a with
    | panic => exact Nat.zero_le _
    | push job =>
      have hact : actWeight (.push job) = 2 + weight job := by rw [actWeight]
      rw [children, queueWeight_cons]
      omega
    | _ => exact Nat.le_trans ih (Nat.le_add_left _ _)

/-- The children of some jobs, in the order of the jobs. -/
def below (queue : List Job) : List Job := queue.flatMap children

theorem below_cons (j : Job) (queue : List Job) :
    below (j :: queue) = children j ++ below queue := rfl

theorem below_append (p q : List Job) : below (p ++ q) = below p ++ below q :=
  List.flatMap_append

theorem queueWeight_below_le (queue : List Job) : queueWeight (below queue) ≤ queueWeight queue := by
  induction queue with
  | nil => exact Nat.le_refl _
  | cons j queue ih =>
    have hj := queueWeight_children_le j
    rw [below_cons, queueWeight_append, queueWeight_cons]
    omega

theorem queueWeight_below_lt {queue : List Job} (h : queue ≠ []) :
    queueWeight (below queue) < queueWeight queue := by
  cases queue with
  | nil => exact absurd rfl h
  | cons j queue =>
    have hj := queueWeight_children_le j
    have hle := queueWeight_below_le queue
    rw [below_cons, queueWeight_append, queueWeight_cons]
    omega

/-- A forest of jobs, level by level. -/
def levels : List Job → List (List Job)
  | [] => []
  | j :: queue => (j :: queue) :: levels (below (j :: queue))
termination_by queue => queueWeight queue
decreasing_by exact queueWeight_below_lt (List.cons_ne_nil _ _)

def levelOrder (queue : List Job) : List Job := (levels queue).flatten

theorem levelOrder_eq (queue : List Job) :
    levelOrder queue = if queue = [] then [] else queue ++ levelOrder (below queue) := by
  unfold levelOrder
  cases queue with
  | nil => rw [levels, if_pos rfl, List.flatten_nil]
  | cons j queue => rw [levels, if_neg (List.cons_ne_nil _ _), List.flatten_cons]

/-- What was started is the level order, if it is what waited and the children of what was
started. -/
theorem eq_levelOrder {queue started : List Job} (h : started = queue ++ below started) :
    started = levelOrder queue := by
  induction hw : queueWeight queue using Nat.strongRecOn generalizing queue started with
  | ind w ih =>
    rw [levelOrder_eq]
    by_cases hq : queue = []
    · rw [hq, List.nil_append] at h
      rw [if_pos hq]
      by_cases hs : started = []
      · exact hs
      · -- the jobs would weigh less than themselves
        have hlt := queueWeight_below_lt hs
        rw [← h] at hlt
        exact absurd hlt (Nat.lt_irrefl _)
    · have hbelow : below started = below queue ++ below (below started) := by
        rw [← below_append, ← h]
      have hlt := hw ▸ queueWeight_below_lt hq
      rw [if_neg hq, ← ih _ hlt hbelow rfl, ← h]

end Job

/-! ## One act at a time -/

/-- A queue that is being drained, and what happened so far. -/
structure Shift where
  queue : List Job
  /-- What the running job has still to do. -/
  current : Job := []
  started : List Job := []
  /-- What was ever pushed on the queue, beginning with what waited at first. -/
  pushed : List Job := queue
  failed : Nat := 0
  reports : List JobReport := []

namespace Shift

/-- The next act of the running job, else the next job of the queue. -/
def step (p : Shift) : Option Shift :=
  match p.current with
  | .mark label :: rest => some { p with current := rest, reports := p.reports ++ [.mark label] }
  | .length :: rest =>
    some { p with current := rest, reports := p.reports ++ [.length p.queue.length] }
  | .panic :: _ => some { p with current := [], failed := p.failed + 1 }
  | .push job :: rest =>
    some { p with current := rest, queue := p.queue ++ [job], pushed := p.pushed ++ [job] }
  | [] =>
    match p.queue with
    | [] => none
    | job :: queue => some { p with queue, current := job, started := p.started ++ [job] }

def Next (p next : Shift) : Prop := p.step = some next

/-- What is left to do. -/
def work (p : Shift) : Nat := Job.weight p.current + Job.queueWeight p.queue

/-- The outcome of a drain that goes on from here. -/
def outcome (p : Shift) : Job.Drained :=
  let o := Job.perform p.current p.queue
  let d := Job.drain o.queue
  ⟨p.failed + ((if o.panicked = true then 1 else 0) + d.failed), p.reports ++ (o.reports ++ d.reports)⟩

/-- Everything that one step can do. -/
theorem step_eq_some {p next : Shift} (h : p.step = some next) :
    (∃ label rest, p.current = .mark label :: rest ∧
      next = { p with current := rest, reports := p.reports ++ [.mark label] }) ∨
    (∃ rest, p.current = .length :: rest ∧
      next = { p with current := rest, reports := p.reports ++ [.length p.queue.length] }) ∨
    (∃ rest, p.current = .panic :: rest ∧
      next = { p with current := [], failed := p.failed + 1 }) ∨
    (∃ job rest, p.current = .push job :: rest ∧
      next = { p with
        current := rest, queue := p.queue ++ [job], pushed := p.pushed ++ [job] }) ∨
    ∃ job queue, p.current = [] ∧ p.queue = job :: queue ∧
      next = { p with queue, current := job, started := p.started ++ [job] } := by
  unfold step at h
  split at h
  · rename_i label rest hc
    cases h
    exact .inl ⟨label, rest, hc, rfl⟩
  · rename_i rest hc
    cases h
    exact .inr (.inl ⟨rest, hc, rfl⟩)
  · rename_i rest hc
    cases h
    exact .inr (.inr (.inl ⟨rest, hc, rfl⟩))
  · rename_i job rest hc
    cases h
    exact .inr (.inr (.inr (.inl ⟨job, rest, hc, rfl⟩)))
  · rename_i hc
    split at h
    · cases h
    · rename_i job queue hq
      cases h
      exact .inr (.inr (.inr (.inr ⟨job, queue, hc, hq, rfl⟩)))

theorem step_eq_none {p : Shift} (h : p.step = none) : p.current = [] ∧ p.queue = [] := by
  unfold step at h
  split at h
  · cases h
  · cases h
  · cases h
  · cases h
  · rename_i hc
    split at h
    · exact ⟨hc, by assumption⟩
    · cases h

theorem work_step {p next : Shift} (h : p.step = some next) : next.work < p.work := by
  unfold work
  rcases step_eq_some h with ⟨label, rest, hc, rfl⟩ | ⟨rest, hc, rfl⟩ | ⟨rest, hc, rfl⟩ |
    ⟨job, rest, hc, rfl⟩ | ⟨job, queue, hc, hq, rfl⟩
  · simp only [hc, Job.weight, Job.actWeight]
    omega
  · simp only [hc, Job.weight, Job.actWeight]
    omega
  · simp only [hc, Job.weight, Job.actWeight]
    omega
  · simp only [hc, Job.weight, Job.actWeight, Job.queueWeight_append, Job.queueWeight_cons,
      Job.queueWeight_nil]
    omega
  · simp only [hc, hq, Job.weight, Job.queueWeight_cons]
    omega

/-- To go on does not change how a drain will end. -/
theorem outcome_step {p next : Shift} (h : p.step = some next) : next.outcome = p.outcome := by
  unfold outcome
  rcases step_eq_some h with ⟨label, rest, hc, rfl⟩ | ⟨rest, hc, rfl⟩ | ⟨rest, hc, rfl⟩ |
    ⟨job, rest, hc, rfl⟩ | ⟨job, queue, hc, hq, rfl⟩
  · simp [hc, Job.perform]
  · simp [hc, Job.perform]
  · simp [hc, Job.perform, Nat.add_assoc]
  · simp [hc, Job.perform]
  · simp [hc, hq, Job.perform, Job.drain]

/-- A drain of `queue` has kept its books. -/
structure Kept (queue : List Job) (p : Shift) : Prop where
  waiting : p.started ++ p.queue = p.pushed
  pushed : p.pushed ++ p.current.children = queue ++ Job.below p.started
  failed : p.failed + (if p.current.panics = true then 1 else 0) = p.started.countP Job.panics
  outcome : p.outcome = Job.drain queue

namespace Kept

variable {queue : List Job} {p next : Shift}

theorem start (queue : List Job) : Kept queue { queue } := by
  refine ⟨rfl, rfl, rfl, ?_⟩
  simp [Shift.outcome, Job.perform]

theorem step (h : p.Kept queue) (hs : p.step = some next) : next.Kept queue := by
  have houtcome := (outcome_step hs).trans h.outcome
  have hwaiting := h.waiting
  have hpushed := h.pushed
  have hfailed := h.failed
  rcases step_eq_some hs with ⟨label, rest, hc, rfl⟩ | ⟨rest, hc, rfl⟩ | ⟨rest, hc, rfl⟩ |
    ⟨job, rest, hc, rfl⟩ | ⟨job, queue', hc, hq, rfl⟩
  · rw [hc] at hpushed hfailed
    exact ⟨hwaiting, hpushed, hfailed, houtcome⟩
  · rw [hc] at hpushed hfailed
    exact ⟨hwaiting, hpushed, hfailed, houtcome⟩
  · rw [hc] at hpushed hfailed
    exact ⟨hwaiting, hpushed, hfailed, houtcome⟩
  · rw [hc] at hpushed hfailed
    refine ⟨?_, ?_, hfailed, houtcome⟩
    · dsimp only
      rw [← List.append_assoc, hwaiting]
    · dsimp only
      rw [List.append_assoc]
      exact hpushed
  · rw [hc, Job.children, List.append_nil] at hpushed
    rw [hq] at hwaiting
    rw [hc, Job.panics] at hfailed
    refine ⟨?_, ?_, ?_, houtcome⟩
    · dsimp only
      rw [List.append_assoc]
      exact hwaiting
    · dsimp only
      rw [hpushed, Job.below_append, List.append_assoc]
      simp [Job.below]
    · dsimp only
      rw [List.countP_append, ← hfailed]
      simp [List.countP_cons]

theorem reach (h : p.Kept queue) (hr : Relation.ReflTransGen Next p next) : next.Kept queue := by
  induction hr with
  | refl => exact h
  | tail _ hs ih => exact ih.step hs

/-- When there is nothing left to do, everything was started in level order. -/
theorem last (h : p.Kept queue) (hs : p.step = none) :
    p.queue = [] ∧ p.started = Job.levelOrder queue ∧
      Job.drain queue = ⟨(Job.levelOrder queue).countP Job.panics, p.reports⟩ := by
  obtain ⟨hc, hq⟩ := step_eq_none hs
  have hwaiting := h.waiting
  have hpushed := h.pushed
  have hfailed := h.failed
  rw [hc, Job.children, List.append_nil, ← hwaiting, hq, List.append_nil] at hpushed
  have hstarted := Job.eq_levelOrder hpushed
  refine ⟨hq, hstarted, ?_⟩
  rw [hc, Job.panics] at hfailed
  rw [← h.outcome, ← hstarted, ← hfailed]
  simp [Shift.outcome, hc, hq, Job.perform, Job.drain]

end Kept

/-- A drain comes to an end. -/
theorem exists_last (p : Shift) : ∃ q, Relation.ReflTransGen Next p q ∧ q.step = none := by
  induction hw : p.work using Nat.strongRecOn generalizing p with
  | ind w ih =>
    cases hs : p.step with
    | none => exact ⟨p, .refl, hs⟩
    | some next =>
      obtain ⟨q, hq, hlast⟩ := ih _ (hw ▸ work_step hs) next rfl
      exact ⟨q, .head hs hq, hlast⟩

end Shift

/-! ## Holders -/

namespace Holder

theorem step_drain {h : Holder} {n : Nat} {q : QueueId} (hq : h.handle? n = some q) :
    h.step (.drain n) = (.drained (Job.drain (h.registry.items q)),
      { h with registry := h.registry.modify q fun x => { x with items := [] } }) := by
  simp only [step, withHandle, hq]

/-- To drain a queue, whatever waits in it, comes to an end with the queue empty. Meanwhile the jobs
are started in level order, and those that panic are counted. A job that asks for the length is told
how many jobs were pushed so far and not started. -/
theorem drain_in_levelOrder {h : Holder} {n : Nat} {q : QueueId} (hq : h.handle? n = some q) :
    ∃ last : Shift,
      Relation.ReflTransGen Shift.Next { queue := h.registry.items q } last ∧ last.step = none ∧
      last.queue = [] ∧ last.started = Job.levelOrder (h.registry.items q) ∧
      h.step (.drain n) =
        (.drained ⟨(Job.levelOrder (h.registry.items q)).countP Job.panics, last.reports⟩,
          { h with registry := h.registry.modify q fun x => { x with items := last.queue } }) ∧
      ∀ (p : Shift) (rest : Job),
        Relation.ReflTransGen Shift.Next { queue := h.registry.items q } p →
        p.current = .length :: rest →
        p.step = some { p with
          current := rest
          reports := p.reports ++ [.length (p.pushed.length - p.started.length)] } := by
  have hstart := Shift.Kept.start (h.registry.items q)
  obtain ⟨last, hreach, hlast⟩ := Shift.exists_last { queue := h.registry.items q }
  obtain ⟨hempty, hstarted, hdrain⟩ := (hstart.reach hreach).last hlast
  refine ⟨last, hreach, hlast, hempty, hstarted, ?_, ?_⟩
  · rw [step_drain hq, hdrain, hempty]
  · intro p rest hp hc
    have hwaiting : p.started ++ p.queue = p.pushed := (hstart.reach hp).waiting
    have hlength : p.queue.length = p.pushed.length - p.started.length := by
      rw [← hwaiting, List.length_append, Nat.add_sub_cancel_left]
    simp only [Shift.step, hc, hlength]

/-- Two jobs wait that push others, and the first one panics. -/
def branching : Holder :=
  [Request.queue 1,
    .push 0 [.push [.mark "third", .push [.mark "fifth"]], .panic, .push [.mark "lost"]],
    .push 0 [.length, .push [.mark "fourth"], .length]].foldl (fun h request => (h.step request).2) {}

theorem items_branching : branching.registry.items 0 =
    [[.push [.mark "third", .push [.mark "fifth"]], .panic, .push [.mark "lost"]],
      [.length, .push [.mark "fourth"], .length]] := rfl

theorem drain_branching :
    (branching.step (.drain 0)).1 =
        .drained ⟨1, [.length 1, .length 2, .mark "third", .mark "fourth", .mark "fifth"]⟩ ∧
      ∃ last : Shift,
        Relation.ReflTransGen Shift.Next { queue := branching.registry.items 0 } last ∧
        last.queue = [] ∧ last.started = branching.registry.items 0 ++
          [[.mark "third", .push [.mark "fifth"]], [.mark "fourth"], [.mark "fifth"]] := by
  obtain ⟨last, hreach, -, hempty, hstarted, -, -⟩ :=
    drain_in_levelOrder (h := branching) (n := 0) (q := 0) rfl
  refine ⟨?_, last, hreach, hempty, ?_⟩
  · rw [step_drain (q := 0) rfl, items_branching]
    simp [Job.drain, Job.perform]
  · rw [hstarted, items_branching]
    simp [Job.levelOrder_eq, Job.below, Job.children]

end Holder

end StreamMemory
