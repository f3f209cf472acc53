import StreamMemory.Gauge
import Mathlib.Algebra.Order.Ring.Int
import Mathlib.Data.List.Induction
import Mathlib.Data.List.Infix
import Mathlib.Order.Bounds.Basic

/-!
# What a gauge has seen

A gauge stops at zero where a true sum would go below it. So what it shows depends on all that
happened before, and not on the true sum alone: as long as no sum reaches the limit of sizes, it is
the true sum, raised by the deepest deficit that there was so far. Its peak is the largest amount
that it ever showed.
-/

set_option autoImplicit false

namespace StreamMemory

namespace Meter

/-- What a step adds to the true sum. -/
def Step.change : Step → Int
  | .add n => n
  | .sub n => -n
  | .tick => 0

/-- The true sum of a list of steps. It can be negative. -/
def net (ss : List Step) : Int := (ss.map Step.change).sum

/-- A new meter after a list of steps. -/
def after (ss : List Step) : Meter := ({} : Meter).run ss

/-- Whether a step adds no more than there is room for below the limit of sizes. -/
def HasRoom (m : Meter) : Step → Prop
  | .add n => m.gauge.current + n < sizeLimit
  | _ => True

instance decidableHasRoom (m : Meter) : DecidablePred m.HasRoom
  | .add n => Nat.decLt (m.gauge.current + n) sizeLimit
  | .sub _ | .tick => .isTrue trivial

/-- No step of a list takes the amount to the limit of sizes. -/
def Within (m : Meter) : List Step → Prop
  | [] => True
  | s :: ss => m.HasRoom s ∧ (m.step s).Within ss

instance decidableWithin : (m : Meter) → DecidablePred m.Within
  | _, [] => .isTrue trivial
  | m, s :: ss =>
    have := (m.step s).decidableWithin ss
    inferInstanceAs (Decidable (m.HasRoom s ∧ (m.step s).Within ss))

/-- The true sums along the way, zero at the beginning among them. -/
def sums (ss : List Step) : Set Int := {x | ∃ past, past <+: ss ∧ net past = x}

/-- The amounts that the gauge showed along the way. -/
def amounts (ss : List Step) : Set Nat := {n | ∃ past, past <+: ss ∧ (after past).gauge.current = n}

variable {ss : List Step} {s : Step} {low : Int}

@[simp] theorem net_nil : net [] = 0 := rfl

theorem net_concat (ss : List Step) (s : Step) : net (ss ++ [s]) = net ss + s.change := by
  simp [net]

theorem after_concat (ss : List Step) (s : Step) : after (ss ++ [s]) = (after ss).step s :=
  List.foldl_concat step {} s ss

theorem within_concat {m : Meter} {ss : List Step} {s : Step} (h : m.Within (ss ++ [s])) :
    m.Within ss ∧ (m.run ss).HasRoom s := by
  induction ss generalizing m with
  | nil => exact ⟨trivial, h.1⟩
  | cons t ss ih => exact ⟨⟨h.1, (ih h.2).1⟩, (ih h.2).2⟩

theorem sums_nil : sums [] = {0} := by
  ext x
  simp [sums, eq_comm]

theorem amounts_nil : amounts [] = {0} := by
  ext n
  simp [amounts, after, run, eq_comm]

/-- A list of steps has one more beginning after one more step. -/
theorem sums_concat (ss : List Step) (s : Step) :
    sums (ss ++ [s]) = insert (net (ss ++ [s])) (sums ss) := by
  ext x
  simp only [sums, List.prefix_concat_iff, or_and_right, exists_or, exists_eq_left,
    Set.mem_ofPred_eq, Set.mem_insert_iff, eq_comm]

theorem amounts_concat (ss : List Step) (s : Step) :
    amounts (ss ++ [s]) = insert (after (ss ++ [s])).gauge.current (amounts ss) := by
  ext n
  simp only [amounts, List.prefix_concat_iff, or_and_right, exists_or, exists_eq_left,
    Set.mem_ofPred_eq, Set.mem_insert_iff, eq_comm]

theorem net_mem_sums (ss : List Step) : net ss ∈ sums ss := ⟨ss, List.prefix_refl ss, rfl⟩

theorem zero_mem_sums (ss : List Step) : 0 ∈ sums ss := ⟨[], List.nil_prefix, rfl⟩

/-- A step that leads to a new least sum leaves the gauge at zero. -/
theorem current_step {m : Meter} {x : Int} (h : (m.gauge.current : Int) = x - low)
    (hroom : m.HasRoom s) (hlow : low ≤ x) :
    ((m.step s).gauge.current : Int) = x + s.change - min (x + s.change) low := by
  cases s with
  | add n =>
    have hle : low ≤ x + n := hlow.trans (Int.le_add_of_nonneg_right (Int.natCast_nonneg n))
    change (m.gauge.sum n : Int) = x + n - min (x + n) low
    rw [Gauge.sum_of_lt hroom, min_eq_right hle]
    omega
  | sub n =>
    change ((m.gauge.current - n : Nat) : Int) = x + -n - min (x + -n) low
    omega
  | tick =>
    change (m.gauge.current : Int) = x + 0 - min (x + 0) low
    rw [Int.add_zero, min_eq_right hlow]
    exact h

/-- The amount shown is the true sum less the least of the true sums so far. -/
theorem exists_isLeast_sums (hw : ({} : Meter).Within ss) :
    ∃ low, IsLeast (sums ss) low ∧ ((after ss).gauge.current : Int) = net ss - low := by
  induction ss using List.reverseRecOn with
  | nil =>
    refine ⟨0, ?_, rfl⟩
    rw [sums_nil]
    exact isLeast_singleton
  | append_singleton ss s ih =>
    obtain ⟨hbefore, hroom⟩ := within_concat hw
    obtain ⟨low, hleast, hcurrent⟩ := ih hbefore
    refine ⟨min (net (ss ++ [s])) low, ?_, ?_⟩
    · rw [sums_concat]
      exact hleast.insert _
    · rw [after_concat, net_concat]
      exact current_step hcurrent hroom (hleast.2 (net_mem_sums ss))

/-- The peak moves with the amount shown. -/
theorem peak_step {m : Meter} (h : m.gauge.current ≤ m.gauge.peak) (s : Step) :
    (m.step s).gauge.peak = max (m.step s).gauge.current m.gauge.peak := by
  cases s with
  | add n => exact max_comm _ _
  | sub n => exact (max_eq_right ((Nat.sub_le _ _).trans h)).symm
  | tick => exact (max_eq_right h).symm

theorem isGreatest_amounts (ss : List Step) : IsGreatest (amounts ss) (after ss).gauge.peak := by
  induction ss using List.reverseRecOn with
  | nil =>
    rw [amounts_nil]
    exact isGreatest_singleton
  | append_singleton ss s ih =>
    have hle : (after ss).gauge.current ≤ (after ss).gauge.peak :=
      ih.2 ⟨ss, List.prefix_refl ss, rfl⟩
    rw [amounts_concat, after_concat, peak_step hle]
    exact ih.insert _

/-- After any steps that stay below the limit of sizes a gauge shows the true sum less the least of
the true sums so far, each step reports what is shown after it, and the peak is the largest amount
ever shown. So a gauge shows the true sum as long as that was never negative. It never shows less;
what it shows too much is the deepest deficit that there was. -/
theorem shown_eq_net_sub_least (hw : ({} : Meter).Within ss) :
    (∃ low, IsLeast (sums ss) low ∧ ((after ss).gauge.current : Int) = net ss - low) ∧
      IsGreatest (amounts ss) (after ss).gauge.peak ∧
      (∀ past s, past ++ [s] <+: ss → s ≠ .tick →
        (after past).reported s = some (after (past ++ [s])).gauge.current) ∧
      ((∀ x ∈ sums ss, 0 ≤ x) → ((after ss).gauge.current : Int) = net ss) ∧
      IsGreatest {d | -d ∈ sums ss} ((after ss).gauge.current - net ss) ∧
      net ss ≤ (after ss).gauge.current := by
  obtain ⟨low, hleast, hcurrent⟩ := exists_isLeast_sums hw
  have hlow : low ≤ 0 := hleast.2 (zero_mem_sums ss)
  have hexcess : ((after ss).gauge.current : Int) - net ss = -low := by omega
  refine ⟨⟨low, hleast, hcurrent⟩, isGreatest_amounts ss, ?_, ?_, ?_, ?_⟩
  · intro past s _ hs
    rw [after_concat]
    cases s with
    | tick => exact absurd rfl hs
    | add n => rfl
    | sub n => rfl
  · intro hnever
    have hzero : 0 ≤ low := hnever low hleast.1
    omega
  · rw [hexcess]
    refine ⟨?_, fun d hd => ?_⟩
    · change - -low ∈ sums ss
      rw [Int.neg_neg]
      exact hleast.1
    · have hle : low ≤ -d := hleast.2 hd
      omega
  · omega

/-- More is given up than was in use, and later a gauge is filled up to the largest size. -/
def overdrawn : List Step := [.add 10, .sub 20, .add 7, .sub 2, .tick, .add (2 ^ 64 - 6)]

/-- A gauge that was overdrawn by 10 shows 10 too much from then on. -/
theorem shown_overdrawn :
    ({} : Meter).Within overdrawn ∧ (after overdrawn).gauge = ⟨2 ^ 64 - 1, 2 ^ 64 - 1⟩ ∧
      net overdrawn = 2 ^ 64 - 11 ∧
      IsGreatest (amounts overdrawn) (after overdrawn).gauge.peak ∧
      IsGreatest {d | -d ∈ sums overdrawn} 10 := by
  have hw : ({} : Meter).Within overdrawn := by decide
  have hgauge : (after overdrawn).gauge = ⟨2 ^ 64 - 1, 2 ^ 64 - 1⟩ := by decide
  have hnet : net overdrawn = 2 ^ 64 - 11 := by decide
  obtain ⟨-, hpeak, -, -, hdeficit, -⟩ := shown_eq_net_sub_least hw
  rw [hgauge, hnet] at hdeficit
  exact ⟨hw, hgauge, hnet, hpeak, hdeficit⟩

end Meter

end StreamMemory
