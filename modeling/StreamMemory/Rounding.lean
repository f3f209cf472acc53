/-!
# Rounding to nearest, ties to even

`divEven n d` is the integer nearest to `n / d`, and of two equally near ones the even one.
`roundToBits b n` keeps the `b` leading binary digits of `n`, rounded in the same way.
`divEven_lower` and `divEven_upper` say that the error is at most half a divisor.
-/

set_option autoImplicit false

namespace StreamMemory

/-- The integer nearest to `n / d`; a tie goes to the even one. -/
def divEven (n d : Nat) : Nat :=
  if d < 2 * (n % d) ∨ (d = 2 * (n % d) ∧ n / d % 2 = 1) then n / d + 1 else n / d

theorem divEven_lower (n : Nat) {d : Nat} (hd : 0 < d) : 2 * n ≤ 2 * (d * divEven n d) + d := by
  have h := Nat.div_add_mod n d
  have hm := Nat.mod_lt n hd
  unfold divEven
  split
  · rw [Nat.mul_add]
    omega
  · omega

theorem divEven_upper (n d : Nat) : 2 * (d * divEven n d) ≤ 2 * n + d := by
  have h := Nat.div_add_mod n d
  unfold divEven
  split
  · rw [Nat.mul_add]
    omega
  · omega

theorem divEven_mul_left (k : Nat) {d : Nat} (hd : 0 < d) : divEven (d * k) d = k := by
  unfold divEven
  rw [Nat.mul_mod_right, Nat.mul_div_cancel_left k hd, if_neg]
  omega

/-- `n` rounded to `bits` significant binary digits. -/
def roundToBits (bits n : Nat) : Nat :=
  let unit := 1 <<< (n.log2 + 1 - bits)
  unit * divEven n unit

/-- A number with no more digits than that is kept. -/
theorem roundToBits_of_log2_lt {bits n : Nat} (h : n.log2 < bits) : roundToBits bits n = n := by
  have hz : n.log2 + 1 - bits = 0 := by omega
  have hd := divEven_mul_left n Nat.one_pos
  simp only [roundToBits, hz, Nat.shiftLeft_zero, Nat.one_mul] at hd ⊢
  exact hd

end StreamMemory
