import ComputerMonitor.Support.Double
import ComputerMonitor.Support.Scan

/-! What a number rendered with a fixed number of digits reads back as. -/

namespace ComputerMonitor

open Bytes Scan

/-! ### Rounding -/

namespace Double

theorem floor_toNat_bounds {q : ℚ} (h : 0 ≤ q) :
    ((q.floor.toNat : ℕ) : ℚ) ≤ q ∧ q < (q.floor.toNat : ℕ) + 1 := by
  have hfloor : (0 : ℤ) ≤ q.floor := Rat.le_floor_iff.mpr (by exact_mod_cast h)
  have hcast : ((q.floor.toNat : ℕ) : ℚ) = (q.floor : ℚ) := by
    exact_mod_cast congrArg (Int.cast : ℤ → ℚ) (Int.toNat_of_nonneg hfloor)
  have hlt := Rat.lt_floor_add_one q
  push_cast at hlt
  rw [hcast]
  exact ⟨Rat.floor_le q, hlt⟩

/-- The nearest natural number is never further than a half. -/
theorem abs_roundHalfEven_sub_le {q : ℚ} (h : 0 ≤ q) : |(roundHalfEven q : ℚ) - q| ≤ 1 / 2 := by
  obtain ⟨hle, hlt⟩ := floor_toNat_bounds h
  simp only [roundHalfEven]
  split_ifs with hdown hup
  · rw [abs_sub_comm, abs_of_nonneg (by linarith)]
    exact hdown.le
  · push_cast
    rw [abs_of_nonneg (by linarith)]
    linarith
  · have htie : q - (q.floor.toNat : ℕ) = 1 / 2 := le_antisymm (not_lt.mp hup) (not_lt.mp hdown)
    rcases Nat.mod_two_eq_zero_or_one q.floor.toNat with heven | hodd
    · rw [heven, add_zero, abs_sub_comm, htie, abs_of_pos (by norm_num)]
    · rw [hodd]
      push_cast
      rw [abs_of_nonneg (by linarith)]
      linarith

/-- A number up to a whole one is not rounded past it. -/
theorem roundHalfEven_le {q : ℚ} (h : 0 ≤ q) {n : ℕ} (hn : q ≤ n) : roundHalfEven q ≤ n := by
  have hclose := abs_le.mp (abs_roundHalfEven_sub_le h)
  have hlt : (roundHalfEven q : ℚ) < n + 1 := by linarith
  exact Nat.lt_succ_iff.mp (by exact_mod_cast hlt)

end Double

/-! ### Digits -/

namespace Bytes

theorem numVal_append (base : ℕ) (s t : Bytes) :
    numVal base (s ++ t) = numVal base s * base ^ t.length + numVal base t := by
  induction t using List.reverseRecOn with
  | nil => simp [numVal]
  | append_singleton t b ih =>
    simp only [numVal, ← List.append_assoc, List.foldl_append, List.foldl_cons,
      List.foldl_nil] at ih ⊢
    rw [ih, List.length_append, List.length_singleton, pow_succ]
    ring

theorem numVal_zeros (base k : ℕ) (s : Bytes) :
    numVal base (List.replicate k 0x30 ++ s) = numVal base s := by
  have hzeros : numVal base (List.replicate k 0x30) = 0 := by
    induction k with
    | zero => rfl
    | succ k ih =>
      have hdigit : digitVal 0x30 = 0 := by decide
      rw [List.replicate_succ']
      simp only [numVal, List.foldl_append, List.foldl_cons, List.foldl_nil, hdigit] at ih ⊢
      rw [ih, mul_zero]
  rw [numVal_append, hzeros, zero_mul, zero_add]

end Bytes

namespace Double

/-- The number of last digits that is printed for a finite value. -/
def fixedUnits (d : ℕ) (q : ℚ) : ℕ := roundHalfEven (|q| * 10 ^ d)

/-- The digits behind the point. -/
def fixedFraction (d n : ℕ) : Bytes :=
  List.replicate (d - (decimal (n % 10 ^ d)).length) 0x30 ++ decimal (n % 10 ^ d)

/-- What is printed, as a decimal number. -/
def fixed (d : ℕ) (q : ℚ) : Decimal where
  neg := q < 0
  whole := decimal (fixedUnits d q / 10 ^ d)
  fraction := some (fixedFraction d (fixedUnits d q))
  whole_ne := decimal_ne_nil _
  whole_digits := decimal_digits _
  fraction_digits := by
    rintro f ⟨⟩ b hb
    rcases List.mem_append.mp hb with hb | hb
    · rw [List.eq_of_mem_replicate hb]
      decide
    · exact decimal_digits _ b hb

theorem toFixed_finite (d : ℕ) (q : ℚ) : toFixed d (.finite q) = (fixed d q).text := by
  have hpoint : ascii "." = [0x2e] := by decide
  have hminus : ascii "-" = [0x2d] := by decide
  simp [toFixed, fixed, Decimal.text, Decimal.magnitudeText, Decimal.fractionText, fixedUnits,
    fixedFraction, hpoint, hminus]

theorem length_fixedFraction {d : ℕ} (hd : 0 < d) (n : ℕ) : (fixedFraction d n).length = d := by
  have hlt : n % 10 ^ d < 10 ^ d := Nat.mod_lt n (by positivity)
  have hle := length_decimal_le hd hlt
  rw [fixedFraction, List.length_append, List.length_replicate]
  omega

/-- It is that number of last digits, whatever the sign. -/
theorem magnitude_fixed {d : ℕ} (hd : 0 < d) (q : ℚ) :
    (fixed d q).magnitude = fixedUnits d q / 10 ^ d := by
  have hvalue : numVal 10 (decimal (fixedUnits d q / 10 ^ d) ++ fixedFraction d (fixedUnits d q)) =
      fixedUnits d q := by
    rw [numVal_append, length_fixedFraction hd, numVal_decimal, fixedFraction, numVal_zeros,
      numVal_decimal]
    exact Nat.div_add_mod' _ _
  simp only [Decimal.magnitude, fixed, Option.getD_some, hvalue, length_fixedFraction hd]

/-- What is printed is within half a unit of the last digit. -/
theorem abs_value_fixed_sub_le {d : ℕ} (hd : 0 < d) (q : ℚ) :
    |(fixed d q).value - q| ≤ 1 / 2 / 10 ^ d := by
  have hpow : (0 : ℚ) < 10 ^ d := by positivity
  have hround := abs_roundHalfEven_sub_le (mul_nonneg (abs_nonneg q) hpow.le)
  have hmagnitude : |(fixed d q).magnitude - abs q| ≤ 1 / 2 / 10 ^ d := by
    rw [magnitude_fixed hd, fixedUnits, le_div_iff₀ hpow, ← abs_of_pos hpow, ← abs_mul, sub_mul,
      abs_of_pos hpow, div_mul_cancel₀ _ hpow.ne']
    exact hround
  by_cases hq : q < 0
  · have hneg : (fixed d q).neg = true := decide_eq_true hq
    have hsame : (fixed d q).value - q = -((fixed d q).magnitude - abs q) := by
      rw [Decimal.value, hneg, if_pos rfl, abs_of_neg hq]
      ring
    rw [hsame, abs_neg]
    exact hmagnitude
  · have hneg : (fixed d q).neg = false := decide_eq_false hq
    rw [Decimal.value, hneg, if_neg Bool.false_ne_true]
    rwa [abs_of_nonneg (not_lt.mp hq)] at hmagnitude

/-- A value between whole numbers is not printed as one outside them. -/
theorem value_fixed_mem {d : ℕ} (hd : 0 < d) {q : ℚ} (hq : 0 ≤ q) {n : ℕ} (hn : q ≤ n) :
    0 ≤ (fixed d q).value ∧ (fixed d q).value ≤ n := by
  have hpow : (0 : ℚ) < 10 ^ d := by positivity
  have hneg : (fixed d q).neg = false := decide_eq_false (not_lt.mpr hq)
  have hunits : fixedUnits d q ≤ n * 10 ^ d := by
    apply roundHalfEven_le (mul_nonneg (abs_nonneg q) hpow.le)
    rw [abs_of_nonneg hq]
    push_cast
    exact mul_le_mul_of_nonneg_right hn hpow.le
  rw [Decimal.value, hneg, if_neg Bool.false_ne_true, magnitude_fixed hd, div_le_iff₀ hpow]
  exact ⟨by positivity, by exact_mod_cast hunits⟩

/-- Reading a rendered number gives it back up to the rounding. -/
theorem readDouble_toFixed {ws : Bytes} (hws : Blank ws) (d : ℕ) (q : ℚ) {rest : Bytes}
    (hrest : Ends rest) :
    readDouble (ws ++ (toFixed d (.finite q) ++ rest)) =
      some (.finite (fixed d q).value, rest) := by
  rw [toFixed_finite]
  exact readDouble_decimal hws (fixed d q) hrest

end Double

end ComputerMonitor
