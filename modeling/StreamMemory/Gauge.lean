import StreamMemory.ByteCount
import StreamMemory.Text.Description

/-!
# Usage gauges

A gauge holds an amount in use and the largest amount it has held. Amounts are sizes: a sum that
reaches the limit of sizes wraps around. Taking away more than is in use leaves zero.
-/

set_option autoImplicit false

namespace StreamMemory

structure Gauge where
  current : Nat := 0
  peak : Nat := 0
  deriving DecidableEq, Repr, Inhabited

namespace Gauge

/-- The amount after `n` is added. It wraps around at the limit of sizes. -/
def sum (g : Gauge) (n : Nat) : Nat := (g.current + n) % sizeLimit

def add (g : Gauge) (n : Nat) : Gauge :=
  ⟨g.sum n, max g.peak (g.sum n)⟩

/-- Stops at zero. -/
def sub (g : Gauge) (n : Nat) : Gauge :=
  { g with current := g.current - n }

/-- Below the limit sums are exact. -/
theorem sum_of_lt {g : Gauge} {n : Nat} (h : g.current + n < sizeLimit) :
    g.sum n = g.current + n := Nat.mod_eq_of_lt h

@[simp] theorem current_add (g : Gauge) (n : Nat) : (g.add n).current = g.sum n := rfl

@[simp] theorem peak_add (g : Gauge) (n : Nat) : (g.add n).peak = max g.peak (g.sum n) := rfl

@[simp] theorem current_sub (g : Gauge) (n : Nat) : (g.sub n).current = g.current - n := rfl

@[simp] theorem peak_sub (g : Gauge) (n : Nat) : (g.sub n).peak = g.peak := rfl

theorem current_add_le_peak (g : Gauge) (n : Nat) : (g.add n).current ≤ (g.add n).peak :=
  Nat.le_max_right _ _

def describe (g : Gauge) : Description :=
  .record "UsageGauge" [("current", .nat g.current), ("peak", .nat g.peak)]

end Gauge

/-- A count of events as it is described beside gauges. -/
def describeCount (n : Nat) : Description := .tuple "AtomicCounter" [.nat n]

/-- A gauge and a count of events, moved together by a list of steps. -/
structure Meter where
  gauge : Gauge := {}
  count : Nat := 0
  deriving DecidableEq, Repr

namespace Meter

inductive Step where
  | add (n : Nat)
  | sub (n : Nat)
  | tick

def step (m : Meter) : Step → Meter
  | .add n => { m with gauge := m.gauge.add n }
  | .sub n => { m with gauge := m.gauge.sub n }
  | .tick => { m with count := m.count + 1 }

/-- The value a step reports, taken from the amount before it; nothing for a tick. -/
def reported (m : Meter) : Step → Option Nat
  | .add n => some (m.gauge.sum n)
  | .sub n => some (m.gauge.current - n)
  | .tick => none

def run (m : Meter) (ss : List Step) : Meter := ss.foldl step m

/-- What each step reports, with the meter after it. -/
def readings (m : Meter) : List Step → List (Option Nat × Meter)
  | [] => []
  | s :: ss => (m.reported s, m.step s) :: (m.step s).readings ss

theorem getLast?_readings (m : Meter) (ss : List Step) (h : ss ≠ []) :
    (m.readings ss).getLast?.map Prod.snd = some (m.run ss) := by
  induction ss generalizing m with
  | nil => exact absurd rfl h
  | cons s ss ih =>
    cases ss with
    | nil => rfl
    | cons t ts =>
      have e := ih (m.step s) (by simp)
      simpa [readings, run, List.getLast?_cons_cons] using e

def describe (m : Meter) : String :=
  m.gauge.describe.line ++ " " ++ (describeCount m.count).line

end Meter

end StreamMemory
