import StreamMemory.ByteCount
import Mathlib.Algebra.Group.Nat.Even
import Mathlib.Algebra.Order.Field.Rat
import Mathlib.Algebra.Order.Ring.Abs
import Mathlib.Data.List.TakeWhile
import Mathlib.Data.Nat.Log
import Mathlib.Tactic.FieldSimp
import Mathlib.Tactic.Linarith
import Mathlib.Tactic.NormNum
import Mathlib.Tactic.Ring

/-!
# Byte counts read back

The text of a byte count is read as a decimal number of a unit. The number read is near the count,
and a larger count never reads as a smaller number, also where the unit changes and where the count
itself does not fit into 53 binary digits.
-/

set_option autoImplicit false

namespace StreamMemory

section Rounding

variable {a b bits d k n : Nat}

/-- `k` is an integer nearest to `x`, and an even one where two are equally near. -/
structure NearestEven (x : ℚ) (k : Nat) : Prop where
  nearest : |x - k| ≤ 1 / 2
  even : |x - k| = 1 / 2 → Even k

theorem even_divEven_of_tie (hd : 0 < d)
    (h : 2 * n = 2 * (d * divEven n d) + d ∨ 2 * (d * divEven n d) = 2 * n + d) :
    Even (divEven n d) := by
  have hdiv := Nat.div_add_mod n d
  have hmod := Nat.mod_lt n hd
  rw [Nat.even_iff]
  unfold divEven at h ⊢
  split at h
  · rw [if_pos ‹_›]
    rw [Nat.mul_add] at h
    omega
  · rw [if_neg ‹_›]
    omega

theorem divEven_nearestEven (n : Nat) (hd : 0 < d) : NearestEven ((n : ℚ) / d) (divEven n d) := by
  have hdq : (0 : ℚ) < d := by exact_mod_cast hd
  have hlower : (2 * n : ℚ) ≤ 2 * (d * divEven n d) + d := by exact_mod_cast divEven_lower n hd
  have hupper : (2 * (d * divEven n d) : ℚ) ≤ 2 * n + d := by exact_mod_cast divEven_upper n d
  have hdist : (n : ℚ) / d - divEven n d = (n - d * divEven n d) / d := by field_simp
  constructor
  · rw [hdist, abs_le, le_div_iff₀ hdq, div_le_iff₀ hdq]
    constructor <;> linarith
  · rw [hdist, abs_eq (by norm_num), div_eq_iff hdq.ne', div_eq_iff hdq.ne']
    rintro (htie | htie)
    · have hsum : (2 * n : ℚ) = 2 * (d * divEven n d) + d := by linarith
      exact even_divEven_of_tie hd (.inl (by exact_mod_cast hsum))
    · have hsum : (2 * (d * divEven n d) : ℚ) = 2 * n + d := by linarith
      exact even_divEven_of_tie hd (.inr (by exact_mod_cast hsum))

theorem le_divEven (hd : 0 < d) (h : d * k ≤ n) : k ≤ divEven n d := by
  have hq : k ≤ n / d := (Nat.le_div_iff_mul_le hd).mpr (by rwa [Nat.mul_comm])
  unfold divEven
  split <;> omega

theorem divEven_mono (hd : 0 < d) (h : a ≤ b) : divEven a d ≤ divEven b d := by
  by_contra hlt
  have hstep : d * divEven b d + d ≤ d * divEven a d := by
    rw [← Nat.mul_succ]
    exact Nat.mul_le_mul_left d (by omega)
  have ha := divEven_upper a d
  have hb := divEven_lower b hd
  -- The two numbers would be equal, and so would the rounded ones.
  have hab : a = b := by omega
  exact hlt (hab ▸ le_rfl)

theorem divEven_le (hd : 0 < d) (h : n ≤ d * k) : divEven n d ≤ k :=
  (divEven_mono hd h).trans_eq (divEven_mul_left k hd)

/-- `m` is `n` with its `bits` leading binary digits, rounded to a multiple of `2 ^ e`. -/
structure RoundedTo (bits e n m : Nat) : Prop where
  fits : n < 2 ^ (bits + e)
  leading : 0 < e → 2 ^ (bits + e - 1) ≤ n
  rounded : ∃ k, m = 2 ^ e * k ∧ NearestEven ((n : ℚ) / 2 ^ e) k

theorem roundToBits_eq (bits n : Nat) :
    roundToBits bits n =
      2 ^ (n.log2 + 1 - bits) * divEven n (2 ^ (n.log2 + 1 - bits)) := by
  simp only [roundToBits, Nat.one_shiftLeft]

theorem roundToBits_roundedTo (hbits : 0 < bits) (n : Nat) :
    RoundedTo bits (n.log2 + 1 - bits) n (roundToBits bits n) where
  fits := by
    calc n < 2 ^ (n.log2 + 1) := Nat.lt_log2_self
      _ ≤ 2 ^ (bits + (n.log2 + 1 - bits)) := Nat.pow_le_pow_right Nat.two_pos (by omega)
  leading he := by
    have hexp : bits + (n.log2 + 1 - bits) - 1 = n.log2 := by omega
    rw [hexp]
    refine Nat.log2_self_le fun hzero => ?_
    rw [hzero, Nat.log2_zero] at he
    omega
  rounded := by
    refine ⟨_, roundToBits_eq bits n, ?_⟩
    exact_mod_cast divEven_nearestEven n (Nat.two_pow_pos (n.log2 + 1 - bits))

/-- A rounded number lies between the powers of two around the number. -/
theorem roundToBits_le (bits n : Nat) : roundToBits bits n ≤ 2 ^ (n.log2 + 1) := by
  have hsplit : 2 ^ (n.log2 + 1 - bits) * 2 ^ (n.log2 + 1 - (n.log2 + 1 - bits)) =
      2 ^ (n.log2 + 1) := by
    rw [← Nat.pow_add, Nat.add_sub_cancel' (Nat.sub_le _ _)]
  rw [roundToBits_eq, ← hsplit]
  refine Nat.mul_le_mul_left _ (divEven_le (Nat.two_pow_pos _) ?_)
  rw [hsplit]
  exact Nat.lt_log2_self.le

theorem roundToBits_of_lt (hbits : 0 < bits) (h : n < 2 ^ bits) : roundToBits bits n = n := by
  refine roundToBits_of_log2_lt ?_
  rcases Nat.eq_zero_or_pos n with rfl | hn
  · exact hbits
  · exact (Nat.log2_lt hn.ne').mpr h

theorem le_roundToBits (hbits : 0 < bits) (hn : n ≠ 0) : 2 ^ n.log2 ≤ roundToBits bits n := by
  have hsplit : 2 ^ (n.log2 + 1 - bits) * 2 ^ (n.log2 - (n.log2 + 1 - bits)) = 2 ^ n.log2 := by
    rw [← Nat.pow_add, Nat.add_sub_cancel' (by omega)]
  rw [roundToBits_eq, ← hsplit]
  refine Nat.mul_le_mul_left _ (le_divEven (Nat.two_pow_pos _) ?_)
  rw [hsplit]
  exact Nat.log2_self_le hn

theorem roundToBits_mono (hbits : 0 < bits) (h : a ≤ b) :
    roundToBits bits a ≤ roundToBits bits b := by
  have hlog : a.log2 ≤ b.log2 := by
    rw [Nat.log2_eq_log_two, Nat.log2_eq_log_two]
    exact Nat.log_mono_right h
  rcases hlog.eq_or_lt with heq | hlt
  · rw [roundToBits_eq, roundToBits_eq, heq]
    exact Nat.mul_le_mul_left _ (divEven_mono (Nat.two_pow_pos _) h)
  · have hb : b ≠ 0 := by
      rintro rfl
      rw [Nat.log2_zero] at hlt
      omega
    calc roundToBits bits a ≤ 2 ^ (a.log2 + 1) := roundToBits_le bits a
      _ ≤ 2 ^ b.log2 := Nat.pow_le_pow_right Nat.two_pos hlt
      _ ≤ roundToBits bits b := le_roundToBits hbits hb

/-- Rounding changes a number by half of the last digit kept at most. -/
theorem RoundedTo.abs_sub_le {e m : Nat} (h : RoundedTo bits e n m) :
    |(m : ℚ) - n| ≤ 2 ^ e / 2 := by
  obtain ⟨k, rfl, hk⟩ := h.rounded
  have hpos : (0 : ℚ) < 2 ^ e := by positivity
  have hdist : ((2 ^ e * k : Nat) : ℚ) - n = 2 ^ e * -(n / 2 ^ e - k) := by
    push_cast
    field_simp
    ring
  rw [hdist, abs_mul, abs_neg, abs_of_pos hpos]
  calc 2 ^ e * |(n : ℚ) / 2 ^ e - k| ≤ 2 ^ e * (1 / 2) :=
        mul_le_mul_of_nonneg_left hk.nearest hpos.le
    _ = 2 ^ e / 2 := by ring

end Rounding

namespace ByteUnit

variable {a b n : Nat} {u v : ByteUnit}

theorem size_injective : Function.Injective size := by
  intro u v
  cases u <;> cases v <;> decide

theorem size_dvd_size (h : u.size ≤ v.size) : u.size ∣ v.size := by
  cases u <;> cases v <;> revert h <;> decide

theorem size_lt (u : ByteUnit) : u.size < 2 ^ 53 := by
  cases u <;> decide

/-- No unit that is not above the count is larger than the one chosen. -/
theorem size_le_size_forCount (h : u.size ≤ n) : u.size ≤ (forCount n).size := by
  unfold forCount
  split_ifs <;> cases u <;> simp only [size] at * <;> omega

theorem lt_size_of_forCount_lt (h : (forCount n).size < u.size) : n < u.size :=
  lt_of_not_ge fun hle => (size_le_size_forCount hle).not_gt h

theorem size_forCount_mono (h : a ≤ b) : (forCount a).size ≤ (forCount b).size := by
  rcases Nat.eq_zero_or_pos a with rfl | ha
  · exact (forCount b).size_pos
  · exact size_le_size_forCount ((size_forCount_le ha).trans h)

theorem hundredths_mono (u : ByteUnit) (h : a ≤ b) : u.hundredths a ≤ u.hundredths b :=
  divEven_mono u.size_pos (Nat.mul_le_mul_left 100 (roundToBits_mono (by decide) h))

/-- A whole number of units is shown as it is. -/
theorem hundredths_size_mul (u : ByteUnit) {k : Nat} (h : u.size * k < 2 ^ 53) :
    u.hundredths (u.size * k) = 100 * k := by
  rw [hundredths, roundToBits_of_lt (by decide) h, Nat.mul_left_comm, divEven_mul_left _ u.size_pos]

/-- A larger unit comes out right in a smaller one. -/
theorem size_mul_hundredths_size (h : u.size ≤ v.size) :
    u.size * u.hundredths v.size = 100 * v.size := by
  obtain ⟨k, hk⟩ := size_dvd_size h
  have hlt : u.size * k < 2 ^ 53 := hk ▸ v.size_lt
  rw [hk, hundredths_size_mul u hlt, Nat.mul_left_comm]

/-- What is shown for a count is never more than what is shown for a larger one. -/
theorem shown_mono (h : a ≤ b) :
    (forCount a).size * (forCount a).hundredths a ≤
      (forCount b).size * (forCount b).hundredths b := by
  rcases (size_forCount_mono h).eq_or_lt with heq | hlt
  · rw [size_injective heq]
    exact Nat.mul_le_mul_left _ (hundredths_mono _ h)
  · -- The larger unit lies between the two counts, and both units show it as it is.
    have ha : a < (forCount b).size := lt_size_of_forCount_lt hlt
    have hb : (forCount b).size ≤ b := by
      refine size_forCount_le (Nat.pos_of_ne_zero ?_)
      rintro rfl
      rw [Nat.le_zero.mp h] at hlt
      exact lt_irrefl _ hlt
    calc (forCount a).size * (forCount a).hundredths a
        ≤ (forCount a).size * (forCount a).hundredths (forCount b).size :=
          Nat.mul_le_mul_left _ (hundredths_mono _ ha.le)
      _ = 100 * (forCount b).size := size_mul_hundredths_size hlt.le
      _ = (forCount b).size * (forCount b).hundredths (forCount b).size :=
          (size_mul_hundredths_size le_rfl).symm
      _ ≤ (forCount b).size * (forCount b).hundredths b :=
          Nat.mul_le_mul_left _ (hundredths_mono _ hb)

theorem hundredths_of_forCount_eq_byte (h : forCount n = byte) : byte.hundredths n = 100 * n := by
  have hn : n < kilobyte.size := lt_size_of_forCount_lt (by rw [h]; decide)
  have hlt : byte.size * n < 2 ^ 53 := by
    rw [size, Nat.one_mul]
    exact hn.trans (size_lt kilobyte)
  have hshown := hundredths_size_mul byte hlt
  rwa [size, Nat.one_mul] at hshown

/-- A count of a unit is at least one of it, and at most as many as the next unit has. -/
theorem hundredths_bounds (hn : 0 < n) (h : forCount n = u) (hv : v.size = u.size * 1024) :
    100 ≤ u.hundredths n ∧ u.hundredths n ≤ 102400 := by
  have hlow : u.size * 1 ≤ n := by
    rw [Nat.mul_one, ← h]
    exact size_forCount_le hn
  have hhigh : n < u.size * 1024 := by
    rw [← hv]
    apply lt_size_of_forCount_lt
    rw [h, hv]
    exact lt_mul_of_one_lt_right u.size_pos (by decide)
  have hone : u.hundredths (u.size * 1) = 100 :=
    hundredths_size_mul u (by rw [Nat.mul_one]; exact u.size_lt)
  have hall : u.hundredths (u.size * 1024) = 102400 :=
    hundredths_size_mul u (by rw [← hv]; exact v.size_lt)
  exact ⟨hone ▸ hundredths_mono u hlow, hall ▸ hundredths_mono u hhigh.le⟩

end ByteUnit

/-- What stands in the text of a byte count. -/
structure Reading where
  number : ℚ
  unit : ByteUnit

namespace Reading

/-- The bytes that were meant. -/
def value (r : Reading) : ℚ := r.number * r.unit.size

/-- What comes before the first `c`, and what comes after it. -/
def cut (c : Char) (cs : List Char) : List Char × List Char :=
  (cs.takeWhile (· != c), (cs.dropWhile (· != c)).tail)

/-- The number that decimal digits stand for, with a point among them or none. -/
def decimal? (cs : List Char) : Option ℚ :=
  let (whole, places) := cut '.' cs
  if whole ≠ [] ∧ (whole ++ places).all Char.isDigit then
    some (Nat.ofDigitChars 10 (whole ++ places) 0 / 10 ^ places.length)
  else none

def unit? (cs : List Char) : Option ByteUnit :=
  [ByteUnit.byte, .kilobyte, .megabyte, .gigabyte].find? (·.symbol.toList == cs)

/-- A decimal number, a blank and the symbol of a unit. -/
def ofText? (text : String) : Option Reading :=
  let (number, symbol) := cut ' ' text.toList
  match decimal? number, unit? symbol with
  | some x, some u => some ⟨x, u⟩
  | _, _ => none

theorem unit?_symbol (u : ByteUnit) : unit? u.symbol.toList = some u := by
  cases u <;> decide

variable {c : Char} {xs ys : List Char}

theorem cut_append (h : c ∉ xs) : cut c (xs ++ c :: ys) = (xs, ys) := by
  have hxs : ∀ x ∈ xs, (x != c) = true := fun x hx => bne_iff_ne.mpr (ne_of_mem_of_not_mem hx h)
  simp only [cut, List.takeWhile_append_of_pos hxs, List.dropWhile_append_of_pos hxs]
  simp

theorem cut_eq_self (h : c ∉ xs) : cut c xs = (xs, []) := by
  have hxs : ∀ x ∈ xs, (x != c) = true := fun x hx => bne_iff_ne.mpr (ne_of_mem_of_not_mem hx h)
  rw [cut, List.takeWhile_eq_self_iff.mpr hxs, List.dropWhile_eq_nil_iff.mpr hxs, List.tail_nil]

/-- Nothing but the separator is lost. -/
theorem mem_cut {x : Char} (hne : x ≠ c) (hx : x ∈ xs) : x ∈ (cut c xs).1 ∨ x ∈ (cut c xs).2 := by
  induction xs with
  | nil => exact .inl hx
  | cons y ys ih =>
    by_cases hy : y = c
    · have hmem : x ∈ ys := (List.mem_cons.mp hx).resolve_left fun hxy => hne (hxy.trans hy)
      simpa [cut, hy] using hmem
    · rcases List.mem_cons.mp hx with rfl | hmem
      · simp [cut, hy]
      rcases ih hmem with hfst | hsnd
      · exact .inl (by simpa [cut, hy] using Or.inr hfst)
      · exact .inr (by simpa [cut, hy] using hsnd)

variable {whole places : List Char}

theorem decimal?_whole (hne : whole ≠ []) (hdigit : ∀ c ∈ whole, c.isDigit) :
    decimal? whole = some (Nat.ofDigitChars 10 whole 0 : ℚ) := by
  have hdot : '.' ∉ whole := fun hmem => absurd (hdigit _ hmem) (by decide)
  have hall : (whole ++ []).all Char.isDigit := by
    rw [List.append_nil]
    exact List.all_eq_true.mpr hdigit
  rw [decimal?, cut_eq_self hdot]
  refine (if_pos ⟨hne, hall⟩).trans ?_
  rw [List.append_nil, List.length_nil, pow_zero, div_one]

theorem decimal?_point (hne : whole ≠ []) (hdigit : ∀ c ∈ whole ++ places, c.isDigit) :
    decimal? (whole ++ '.' :: places) =
      some (Nat.ofDigitChars 10 (whole ++ places) 0 / 10 ^ places.length : ℚ) := by
  have hdot : '.' ∉ whole := fun hmem =>
    absurd (hdigit _ (List.mem_append_left places hmem)) (by decide)
  have hall : (whole ++ places).all Char.isDigit := List.all_eq_true.mpr hdigit
  rw [decimal?, cut_append hdot]
  exact if_pos ⟨hne, hall⟩

theorem decimal?_toString (n : Nat) : decimal? (toString n).toList = some (n : ℚ) := by
  rw [Nat.toString_eq_ofList_toDigits, String.toList_ofList, decimal?_whole Nat.toDigits_ne_nil,
    Nat.ofDigitChars_ten_toDigits]
  exact fun c hc => Nat.isDigit_of_mem_toDigits (by decide) (by decide) hc

/-- The digits of a number of hundredths, without the point. -/
theorem ofDigitChars_places (h : Nat) :
    Nat.ofDigitChars 10 (Nat.toDigits 10 (h / 100) ++
      (Nat.toDigits 10 (h / 10 % 10) ++ Nat.toDigits 10 (h % 10))) 0 = h := by
  have htens : h / 10 % 10 < 10 := Nat.mod_lt _ (by decide)
  have hones : h % 10 < 10 := Nat.mod_lt _ (by decide)
  rw [Nat.ofDigitChars_append, Nat.ofDigitChars_append, Nat.ofDigitChars_ten_toDigits,
    Nat.toDigits_of_lt_base htens, Nat.toDigits_of_lt_base hones,
    Nat.ofDigitChars_cons_digitChar_of_lt_ten htens, Nat.ofDigitChars_nil,
    Nat.ofDigitChars_cons_digitChar_of_lt_ten hones, Nat.ofDigitChars_nil]
  omega

theorem toList_twoPlaces (h : Nat) :
    (twoPlaces h).toList = Nat.toDigits 10 (h / 100) ++
      '.' :: (Nat.toDigits 10 (h / 10 % 10) ++ Nat.toDigits 10 (h % 10)) := by
  simp only [twoPlaces, Nat.toString_eq_ofList_toDigits, String.toList_append,
    String.toList_ofList, List.append_assoc]
  rfl

theorem decimal?_twoPlaces (h : Nat) : decimal? (twoPlaces h).toList = some ((h : ℚ) / 100) := by
  have hdigit : ∀ n, ∀ c ∈ Nat.toDigits 10 n, c.isDigit = true := fun n c hc =>
    Nat.isDigit_of_mem_toDigits (by decide) (by decide) hc
  have hlength : ∀ n, (Nat.toDigits 10 (n % 10)).length = 1 := fun n => by
    rw [Nat.toDigits_of_lt_base (Nat.mod_lt _ (by decide)), List.length_singleton]
  rw [toList_twoPlaces, decimal?_point Nat.toDigits_ne_nil, ofDigitChars_places]
  · rw [List.length_append, hlength, hlength]
    norm_num
  · simp only [List.mem_append]
    rintro c (hc | hc | hc) <;> exact hdigit _ c hc

theorem blank_notMem_of_decimal?_eq_some {cs : List Char} {x : ℚ} (h : decimal? cs = some x) :
    ' ' ∉ cs := by
  intro hmem
  rw [decimal?, Option.ite_none_right_eq_some] at h
  have hall := List.all_eq_true.mp h.1.2 ' '
    (List.mem_append.mpr (mem_cut (by decide) hmem))
  exact absurd hall (by decide)

theorem ofText?_append {number : String} {x : ℚ} (h : decimal? number.toList = some x)
    (u : ByteUnit) : ofText? (number ++ " " ++ u.symbol) = some ⟨x, u⟩ := by
  have htext : (number ++ " " ++ u.symbol).toList = number.toList ++ ' ' :: u.symbol.toList := by
    simp only [String.toList_append, List.append_assoc]
    rfl
  simp only [ofText?, htext, cut_append (blank_notMem_of_decimal?_eq_some h), h, unit?_symbol]

/-- What a byte count is said to be. -/
def ofCount (n : Nat) : Reading :=
  ⟨((ByteUnit.forCount n).hundredths n : ℚ) / 100, ByteUnit.forCount n⟩

@[simp] theorem ofCount_unit (n : Nat) : (ofCount n).unit = ByteUnit.forCount n := rfl

theorem formatBytes_of_ne_byte {n : Nat} (h : ByteUnit.forCount n ≠ .byte) :
    formatBytes n = twoPlaces ((ByteUnit.forCount n).hundredths n) ++ " " ++
      (ByteUnit.forCount n).symbol := by
  unfold formatBytes
  split
  · contradiction
  · rfl

theorem ofText?_formatBytes (n : Nat) : ofText? (formatBytes n) = some (ofCount n) := by
  by_cases h : ByteUnit.forCount n = .byte
  · have htext : formatBytes n = toString n ++ " " ++ ByteUnit.byte.symbol := by
      simp only [formatBytes, h, String.append_assoc]
      rfl
    have hnumber : (n : ℚ) = (ByteUnit.byte.hundredths n : ℚ) / 100 := by
      rw [ByteUnit.hundredths_of_forCount_eq_byte h]
      push_cast
      field_simp
    rw [htext, ofText?_append (decimal?_toString n), ofCount, h, ← hnumber]
  · rw [formatBytes_of_ne_byte h, ofText?_append (decimal?_twoPlaces _), ofCount]

theorem ofCount_value_mono {a b : Nat} (h : a ≤ b) : (ofCount a).value ≤ (ofCount b).value := by
  have hshown : ((ByteUnit.forCount a).size * (ByteUnit.forCount a).hundredths a : ℚ) ≤
      (ByteUnit.forCount b).size * (ByteUnit.forCount b).hundredths b := by
    exact_mod_cast ByteUnit.shown_mono h
  simp only [value, ofCount]
  linarith

/-- What is read is the rounded count, but for half of the last decimal place. -/
theorem abs_ofCount_value_sub_le (n : Nat) :
    |(ofCount n).value - roundToBits 53 n| ≤ ((ofCount n).unit.size : ℚ) / 200 := by
  have hsize : (0 : ℚ) < (ofCount n).unit.size := by exact_mod_cast (ofCount n).unit.size_pos
  have hnear := (divEven_nearestEven (100 * roundToBits 53 n) (ofCount n).unit.size_pos).nearest
  have hdist : (ofCount n).value - roundToBits 53 n = -((ofCount n).unit.size / 100 *
      (((100 * roundToBits 53 n : Nat) : ℚ) / (ofCount n).unit.size -
        (ofCount n).unit.hundredths n)) := by
    push_cast
    field_simp
    simp only [value, ofCount]
    ring
  rw [hdist, abs_neg, abs_mul, abs_of_pos (div_pos hsize (by norm_num))]
  calc ((ofCount n).unit.size : ℚ) / 100 * |((100 * roundToBits 53 n : Nat) : ℚ) /
          (ofCount n).unit.size - (ofCount n).unit.hundredths n|
      ≤ (ofCount n).unit.size / 100 * (1 / 2) :=
        mul_le_mul_of_nonneg_left hnear (div_nonneg hsize.le (by norm_num))
    _ = (ofCount n).unit.size / 200 := by ring

/-- Rounding changes a count of 64 binary digits by 1024 at most. -/
theorem abs_roundToBits_sub_le {n : Nat} (h : n < 2 ^ 64) :
    |(roundToBits 53 n : ℚ) - n| ≤ 2 ^ 10 := by
  have hlog : n.log2 + 1 - 53 ≤ 11 := by
    rcases Nat.eq_zero_or_pos n with rfl | hn
    · decide
    · have := (Nat.log2_lt hn.ne').mpr h
      omega
  calc |(roundToBits 53 n : ℚ) - n| ≤ 2 ^ (n.log2 + 1 - 53) / 2 :=
        (roundToBits_roundedTo (by decide) n).abs_sub_le
    _ ≤ 2 ^ 11 / 2 := by gcongr; norm_num
    _ = 2 ^ 10 := by norm_num

theorem ofCount_number_bounds {n : Nat}
    (h : (ofCount n).unit = .kilobyte ∨ (ofCount n).unit = .megabyte) :
    1 ≤ (ofCount n).number ∧ (ofCount n).number ≤ 1024 := by
  have hn : 0 < n := by
    refine Nat.pos_of_ne_zero ?_
    rintro rfl
    revert h
    decide
  have hbounds : 100 ≤ (ByteUnit.forCount n).hundredths n ∧
      (ByteUnit.forCount n).hundredths n ≤ 102400 := by
    rw [ofCount_unit] at h
    rcases h with hu | hu <;> rw [hu]
    · exact ByteUnit.hundredths_bounds hn hu (v := .megabyte) rfl
    · exact ByteUnit.hundredths_bounds hn hu (v := .gigabyte) rfl
  have hlow : (100 : ℚ) ≤ (ByteUnit.forCount n).hundredths n := by exact_mod_cast hbounds.1
  have hhigh : ((ByteUnit.forCount n).hundredths n : ℚ) ≤ 102400 := by exact_mod_cast hbounds.2
  simp only [ofCount]
  constructor <;> linarith

/-- The text of every count is read back. The bytes read never go down as the count goes up. They
differ from a count of 53 binary digits by half of the last decimal place at most, and from one of
64 digits by 1024 bytes more. Kilobytes and megabytes stand from 1.00 to 1024.00. The number read is
the count rounded to 53 binary digits, divided by the unit, and then rounded to hundredths; both
times a tie goes to the even one. -/
theorem formatBytes_reads_back :
    (∀ n, ofText? (formatBytes n) = some (ofCount n)) ∧
    (∀ a b, a ≤ b → (ofCount a).value ≤ (ofCount b).value) ∧
    (∀ n < 2 ^ 53, |(ofCount n).value - n| ≤ ((ofCount n).unit.size : ℚ) / 200) ∧
    (∀ n < 2 ^ 64, |(ofCount n).value - n| ≤ ((ofCount n).unit.size : ℚ) / 200 + 2 ^ 10) ∧
    (∀ n, (ofCount n).unit = .kilobyte ∨ (ofCount n).unit = .megabyte →
      1 ≤ (ofCount n).number ∧ (ofCount n).number ≤ 1024) ∧
    ∀ n, ∃ e m h, RoundedTo 53 e n m ∧
      NearestEven (100 * ((m : ℚ) / (ofCount n).unit.size)) h ∧ (ofCount n).number = h / 100 ∧
      ((ofCount n).unit ≠ .byte →
        formatBytes n = twoPlaces h ++ " " ++ (ofCount n).unit.symbol) := by
  refine ⟨ofText?_formatBytes, fun a b => ofCount_value_mono, fun n hn => ?_, fun n hn => ?_,
    fun n => ofCount_number_bounds, fun n => ?_⟩
  · have herror := abs_ofCount_value_sub_le n
    rwa [roundToBits_of_lt (by decide) hn] at herror
  · calc |(ofCount n).value - n|
        ≤ |(ofCount n).value - roundToBits 53 n| + |(roundToBits 53 n : ℚ) - n| :=
          abs_sub_le _ _ _
      _ ≤ ((ofCount n).unit.size : ℚ) / 200 + 2 ^ 10 :=
          add_le_add (abs_ofCount_value_sub_le n) (abs_roundToBits_sub_le hn)
  · have hnear := divEven_nearestEven (100 * roundToBits 53 n) (ofCount n).unit.size_pos
    rw [Nat.cast_mul, mul_div_assoc] at hnear
    exact ⟨_, _, _, roundToBits_roundedTo (by decide) n, hnear, rfl, formatBytes_of_ne_byte⟩

/-- One byte less than a megabyte is said to be 1024 kilobytes. -/
example : formatBytes 1048575 = "1024.00 KB" ∧ formatBytes 1048576 = "1.00 MB" := by
  decide +kernel

end Reading

end StreamMemory
