/-!
# Totals over a list

`total f xs` adds up `f x` over the members of `xs`. Changing one member changes the total by the
difference of its summands (`total_modify`).
-/

set_option autoImplicit false

namespace StreamMemory

variable {α β : Type}

def total (f : α → Nat) : List α → Nat
  | [] => 0
  | x :: xs => f x + total f xs

@[simp] theorem total_nil (f : α → Nat) : total f [] = 0 := rfl

@[simp] theorem total_cons (f : α → Nat) (x : α) (xs : List α) :
    total f (x :: xs) = f x + total f xs := rfl

@[simp] theorem total_append (f : α → Nat) (xs ys : List α) :
    total f (xs ++ ys) = total f xs + total f ys := by
  induction xs with
  | nil => simp
  | cons x xs ih => simp [ih, Nat.add_assoc]

theorem total_map (f : α → Nat) (g : β → α) (xs : List β) :
    total f (xs.map g) = total (fun x => f (g x)) xs := by
  induction xs with
  | nil => rfl
  | cons x xs ih => rw [List.map_cons, total_cons, total_cons, ih]

theorem total_congr {f g : α → Nat} {xs : List α} (h : ∀ x ∈ xs, f x = g x) :
    total f xs = total g xs := by
  induction xs with
  | nil => rfl
  | cons x xs ih =>
    rw [List.forall_mem_cons] at h
    rw [total_cons, total_cons, h.1, ih h.2]

theorem total_eq_mul {f : α → Nat} {c : Nat} {xs : List α} (h : ∀ x ∈ xs, f x = c) :
    total f xs = c * xs.length := by
  induction xs with
  | nil => rfl
  | cons x xs ih =>
    rw [List.forall_mem_cons] at h
    rw [total_cons, h.1, ih h.2, List.length_cons, Nat.mul_succ, Nat.add_comm]

theorem total_modify (f : α → Nat) (g : α → α) (xs : List α) (i : Nat) {x : α}
    (hx : xs[i]? = some x) : total f (xs.modify i g) + f x = total f xs + f (g x) := by
  induction xs generalizing i with
  | nil => simp at hx
  | cons y ys ih =>
    cases i with
    | zero =>
      simp only [List.getElem?_cons_zero, Option.some.injEq] at hx
      subst hx
      simp only [List.modify_zero_cons, total_cons]
      omega
    | succ i =>
      have := ih i (by simpa using hx)
      simp only [List.modify_succ_cons, total_cons]
      omega

/-- A change that raises no summand by more than `c` raises the total by at most `c`. -/
theorem total_modify_le {f : α → Nat} {g : α → α} {c : Nat} (h : ∀ x, f (g x) ≤ f x + c)
    (xs : List α) (i : Nat) : total f (xs.modify i g) ≤ total f xs + c := by
  cases hi : xs[i]? with
  | none =>
    rw [List.getElem?_eq_none_iff] at hi
    simp [List.modify_eq_self hi]
  | some x =>
    have := total_modify f g xs i hi
    have := h x
    omega

theorem total_perm (f : α → Nat) {xs ys : List α} (h : xs.Perm ys) : total f xs = total f ys := by
  induction h with
  | nil => rfl
  | cons x _ ih => simp [ih]
  | swap x y xs => simp only [total_cons]; omega
  | trans _ _ ih₁ ih₂ => exact ih₁.trans ih₂

end StreamMemory
