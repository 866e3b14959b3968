import ComputerMonitor.Support.JsonText
import ComputerMonitor.Support.Rendering

/-! How the library lays out the digits of a floating-point number, and that reading the text gives
back what the digits stand for.  The digits themselves come from `grisu2`, a parameter here. -/

namespace ComputerMonitor

open Bytes Scan

/-- What `grisu2` fills in: the buffer and the decimal exponent, within what `to_chars` and
`append_exponent` assert. -/
structure Digits where
  buf : Bytes
  decimalExponent : ℤ
  ne : buf ≠ []
  short : buf.length ≤ 17
  digits : ∀ b ∈ buf, isDigit b = true
  lower : -1000 < buf.length + decimalExponent - 1
  upper : buf.length + decimalExponent - 1 < 1000

def Digits.value (d : Digits) : ℚ := (numVal 10 d.buf : ℚ) * 10 ^ d.decimalExponent

/-- The digits of an exponent, at least two as `printf` prints them. -/
def exponentDigits (k : ℕ) : Bytes :=
  if k < 10 then [0x30, digitByte k]
  else if k < 100 then [digitByte (k / 10), digitByte (k % 10)]
  else [digitByte (k / 100), digitByte (k % 100 / 10), digitByte (k % 100 % 10)]

def appendExponent (e : ℤ) : Bytes := (if e < 0 then 0x2d else 0x2b) :: exponentDigits e.natAbs

def formatBuffer (buf : Bytes) (decimalExponent minExp maxExp : ℤ) : Bytes :=
  let k := buf.length
  let n : ℤ := k + decimalExponent
  if k ≤ n ∧ n ≤ maxExp then buf ++ List.replicate (n - k).toNat 0x30 ++ ascii ".0"
  else if 0 < n ∧ n ≤ maxExp then buf.take n.toNat ++ 0x2e :: buf.drop n.toNat
  else if minExp < n ∧ n ≤ 0 then ascii "0." ++ List.replicate (-n).toNat 0x30 ++ buf
  else
    (if k = 1 then buf else buf.take 1 ++ 0x2e :: buf.drop 1) ++ 0x65 :: appendExponent (n - 1)

/-- `to_chars` for finite numbers, with `kMinExp` and `kMaxExp`. -/
def toChars (grisu2 : ℚ → Digits) (value : ℚ) : Bytes :=
  (if value < 0 then ascii "-" else []) ++
    if value = 0 then ascii "0.0"
    else formatBuffer (grisu2 |value|).buf (grisu2 |value|).decimalExponent (-4) 15

/-! ### Exponents -/

theorem length_exponentDigits_le (k : ℕ) : (exponentDigits k).length ≤ 3 := by
  rw [exponentDigits]
  split_ifs <;> simp

theorem exponentDigits_ne_nil (k : ℕ) : exponentDigits k ≠ [] := by
  rw [exponentDigits]
  split_ifs <;> exact List.cons_ne_nil _ _

theorem isDigit_exponentDigits {k : ℕ} (hk : k < 1000) :
    ∀ b ∈ exponentDigits k, isDigit b = true := by
  have hzero : isDigit 0x30 = true := by decide
  rw [exponentDigits]
  split_ifs with h10 h100
  · simp only [List.forall_mem_cons, hzero, isDigit_digitByte h10]
    simp
  · have htens : k / 10 < 10 := by omega
    have hones : k % 10 < 10 := by omega
    simp [isDigit_digitByte htens, isDigit_digitByte hones]
  · have hhundreds : k / 100 < 10 := by omega
    have htens : k % 100 / 10 < 10 := by omega
    have hones : k % 100 % 10 < 10 := by omega
    simp only [List.forall_mem_cons, isDigit_digitByte hhundreds, isDigit_digitByte htens,
      isDigit_digitByte hones]
    simp

theorem numVal_exponentDigits {k : ℕ} (hk : k < 1000) : numVal 10 (exponentDigits k) = k := by
  have hzero : digitVal 0x30 = 0 := by decide
  rw [exponentDigits]
  split_ifs with h10 h100
  · simp [numVal, digitVal_digitByte h10, hzero]
  · have htens : k / 10 < 10 := by omega
    have hones : k % 10 < 10 := by omega
    simp only [numVal, List.foldl_cons, List.foldl_nil, digitVal_digitByte htens,
      digitVal_digitByte hones]
    omega
  · have hhundreds : k / 100 < 10 := by omega
    have htens : k % 100 / 10 < 10 := by omega
    have hones : k % 100 % 10 < 10 := by omega
    simp only [numVal, List.foldl_cons, List.foldl_nil, digitVal_digitByte hhundreds,
      digitVal_digitByte htens, digitVal_digitByte hones]
    omega

theorem readExponent_append {e : ℤ} (he : e.natAbs < 1000) {rest : Bytes}
    (hrest : Stops isDigit rest) :
    readExponent 0x65 (0x65 :: (appendExponent e ++ rest)) = some (e, rest) := by
  have hletter : lower 0x65 = 0x65 := by decide
  have hdigits := isDigit_exponentDigits he
  have htake := takeWhile_run hdigits hrest
  have hdrop := dropWhile_run hdigits hrest
  have hne := exponentDigits_ne_nil e.natAbs
  have hsign : readSign (appendExponent e ++ rest) =
      (decide (e < 0), exponentDigits e.natAbs ++ rest) := by
    by_cases hneg : e < 0 <;> simp [appendExponent, readSign, hneg]
  rw [readExponent, if_pos hletter, hsign]
  simp only [htake, hdrop, if_neg hne, numVal_exponentDigits he, decide_eq_true_eq]
  split_ifs with hneg
  · rw [Int.ofNat_natAbs_of_nonpos hneg.le, neg_neg]
  · rw [Int.natAbs_of_nonneg (not_lt.mp hneg)]

/-! ### Numbers with an exponent -/

/-- A decimal number, with or without an exponent behind it. -/
structure Scientific where
  mantissa : Decimal
  exponent : Option ℤ
  small : ∀ e ∈ exponent, e.natAbs < 1000

namespace Scientific

def exponentText : Option ℤ → Bytes
  | none => []
  | some e => 0x65 :: appendExponent e

def text (s : Scientific) : Bytes := s.mantissa.text ++ exponentText s.exponent

def value (s : Scientific) : ℚ := s.mantissa.value * 10 ^ s.exponent.getD 0

theorem readDouble_text {ws : Bytes} (hws : Blank ws) (s : Scientific) {rest : Bytes}
    (hrest : Ends rest) : readDouble (ws ++ (s.text ++ rest)) = some (.finite s.value, rest) := by
  have hstop : Stops continues (exponentText s.exponent ++ rest) := by
    cases s.exponent with
    | none => exact stops_of_ends hrest
    | some e => exact (stops_cons _ _ _).mpr (by decide)
  have hexponent : readExponent 0x65 (exponentText s.exponent ++ rest) =
      some (s.exponent.getD 0, rest) := by
    cases he : s.exponent with
    | none => exact readExponent_ends hrest
    | some e => exact readExponent_append (s.small e he) hrest.isDigit
  rw [text, List.append_assoc, readDouble_mantissa hws s.mantissa hstop hexponent]
  rfl

end Scientific

/-! ### The layouts -/

/-- Moving the point. -/
theorem shift_div (a : ℚ) {j : ℕ} {e x : ℤ} (h : x + j = e) : a / 10 ^ j * 10 ^ e = a * 10 ^ x := by
  have hten : (10 : ℚ) ≠ 0 := by norm_num
  rw [← h, zpow_add₀ hten, zpow_natCast]
  field_simp

theorem isDigit_zeros (k : ℕ) : ∀ b ∈ List.replicate k 0x30, isDigit b = true := by
  intro b hb
  rw [List.eq_of_mem_replicate hb]
  decide

variable (d : Digits) (neg : Bool)

/-- `digits[000].0` -/
def Digits.padded (k : ℕ) : Decimal where
  neg := neg
  whole := d.buf ++ List.replicate k 0x30
  fraction := some [0x30]
  whole_ne := by simp [d.ne]
  whole_digits := by
    intro b hb
    rcases List.mem_append.mp hb with hb | hb
    · exact d.digits b hb
    · exact isDigit_zeros k b hb
  fraction_digits := by
    rintro f ⟨⟩ b hb
    rw [List.mem_singleton.mp hb]
    decide

/-- `dig.its` -/
def Digits.split {n : ℕ} (hn : 0 < n) : Decimal where
  neg := neg
  whole := d.buf.take n
  fraction := some (d.buf.drop n)
  whole_ne := by simp [d.ne, hn.ne']
  whole_digits := fun b hb => d.digits b (List.mem_of_mem_take hb)
  fraction_digits := by
    rintro f ⟨⟩ b hb
    exact d.digits b (List.mem_of_mem_drop hb)

/-- `0.[000]digits` -/
def Digits.small (k : ℕ) : Decimal where
  neg := neg
  whole := [0x30]
  fraction := some (List.replicate k 0x30 ++ d.buf)
  whole_ne := by simp
  whole_digits := by
    intro b hb
    rw [List.mem_singleton.mp hb]
    decide
  fraction_digits := by
    rintro f ⟨⟩ b hb
    rcases List.mem_append.mp hb with hb | hb
    · exact isDigit_zeros k b hb
    · exact d.digits b hb

theorem isDigit_none : ∀ f ∈ (none : Option Bytes), ∀ b ∈ f, isDigit b = true := by simp

/-- `d` before an exponent -/
def Digits.single : Decimal where
  neg := neg
  whole := d.buf
  fraction := none
  whole_ne := d.ne
  whole_digits := d.digits
  fraction_digits := isDigit_none

theorem Digits.magnitude_padded (k : ℕ) :
    (d.padded neg k).magnitude = numVal 10 d.buf * 10 ^ k := by
  have hzeros : numVal 10 (List.replicate k 0x30 ++ [0x30]) = 0 := numVal_zeros 10 k [0x30]
  simp only [Decimal.magnitude, padded, Option.getD_some, List.append_assoc, numVal_append 10 d.buf,
    hzeros]
  simp [pow_succ]
  ring

theorem Digits.magnitude_split {n : ℕ} (hn : 0 < n) :
    (d.split neg hn).magnitude = numVal 10 d.buf / 10 ^ (d.buf.length - n) := by
  simp [Decimal.magnitude, split]

theorem Digits.magnitude_small (k : ℕ) :
    (d.small neg k).magnitude = numVal 10 d.buf / 10 ^ (k + d.buf.length) := by
  have hzeros := numVal_zeros 10 (k + 1) d.buf
  rw [List.replicate_succ, List.cons_append] at hzeros
  simp [Decimal.magnitude, small, hzeros]

theorem Digits.magnitude_single : (d.single neg).magnitude = numVal 10 d.buf := by
  simp [Decimal.magnitude, single]

/-- Whatever the layout, the text is a number of the digits' value. -/
theorem Digits.exists_layout (minExp maxExp : ℤ) :
    ∃ s : Scientific, s.mantissa.neg = neg ∧
      s.mantissa.magnitudeText ++ Scientific.exponentText s.exponent =
        formatBuffer d.buf d.decimalExponent minExp maxExp ∧
      s.mantissa.magnitude * 10 ^ s.exponent.getD 0 = d.value := by
  have hpoint : ascii ".0" = [0x2e, 0x30] := by decide
  have hzero : ascii "0." = [0x30, 0x2e] := by decide
  have hlength := List.length_pos_iff.mpr d.ne
  have hlower := d.lower
  have hupper := d.upper
  simp only [formatBuffer, hpoint, hzero, Digits.value]
  split_ifs with hpadded hsplit hsmall hone
  · obtain ⟨k, hk⟩ := Int.eq_ofNat_of_zero_le (by omega : 0 ≤ d.decimalExponent)
    refine ⟨⟨d.padded neg k, none, by simp⟩, rfl, ?_, ?_⟩
    · simp [padded, Decimal.magnitudeText, Decimal.fractionText, Scientific.exponentText, hk]
    · simp [d.magnitude_padded neg k, hk]
  · obtain ⟨n, hn⟩ := Int.eq_ofNat_of_zero_le hsplit.1.le
    have hpos : 0 < n := by omega
    refine ⟨⟨d.split neg hpos, none, by simp⟩, rfl, ?_, ?_⟩
    · simp [split, Decimal.magnitudeText, Decimal.fractionText, Scientific.exponentText, hn]
    · rw [d.magnitude_split neg hpos]
      exact shift_div _ (by simp only [Option.getD_none]; omega)
  · obtain ⟨k, hk⟩ := Int.eq_ofNat_of_zero_le
      (by omega : 0 ≤ -(d.buf.length + d.decimalExponent))
    refine ⟨⟨d.small neg k, none, by simp⟩, rfl, ?_, ?_⟩
    · simp [small, Decimal.magnitudeText, Decimal.fractionText, Scientific.exponentText, hk]
    · rw [d.magnitude_small neg k]
      exact shift_div _ (by simp only [Option.getD_none]; omega)
  · have hexponent : (d.buf.length + d.decimalExponent - 1 : ℤ).natAbs < 1000 := by omega
    refine ⟨⟨d.single neg, some (d.buf.length + d.decimalExponent - 1), ?_⟩, rfl, ?_, ?_⟩
    · rintro e ⟨⟩
      exact hexponent
    · simp [single, Decimal.magnitudeText, Decimal.fractionText, Scientific.exponentText]
    · simp [d.magnitude_single neg, hone]
  · have hexponent : (d.buf.length + d.decimalExponent - 1 : ℤ).natAbs < 1000 := by omega
    refine ⟨⟨d.split neg Nat.one_pos, some (d.buf.length + d.decimalExponent - 1), ?_⟩, rfl, ?_, ?_⟩
    · rintro e ⟨⟩
      exact hexponent
    · simp [split, Decimal.magnitudeText, Decimal.fractionText, Scientific.exponentText]
    · rw [d.magnitude_split neg Nat.one_pos]
      exact shift_div _ (by simp only [Option.getD_some]; omega)

example : formatBuffer (ascii "25") (-1) (-4) 15 = ascii "2.5" := by decide

example : formatBuffer (ascii "9313225746154785") (-23) (-4) 15 =
    ascii "9.313225746154785e-08" := by decide

/-- The value that is printed. -/
def charsValue (grisu2 : ℚ → Digits) (q : ℚ) : ℚ :=
  if q = 0 then 0 else if q < 0 then -(grisu2 |q|).value else (grisu2 |q|).value

theorem exists_scientific (grisu2 : ℚ → Digits) (q : ℚ) :
    ∃ s : Scientific, s.text = toChars grisu2 q ∧ s.value = charsValue grisu2 q := by
  have hminus : ascii "-" = [0x2d] := by decide
  by_cases hq : q = 0
  · have hzero : ascii "0.0" = [0x30, 0x2e, 0x30] := by decide
    have hval : numVal 10 [0x30, 0x30] = 0 := by decide
    refine ⟨⟨⟨false, [0x30], some [0x30], by simp, by simp [isDigit], by simp [isDigit]⟩, none,
      by simp⟩, ?_, ?_⟩
    · simp [toChars, hq, hzero, Scientific.text, Scientific.exponentText, Decimal.text,
        Decimal.magnitudeText, Decimal.fractionText]
    · simp [charsValue, hq, Scientific.value, Decimal.value, Decimal.magnitude, hval]
  · obtain ⟨s, hneg, htext, hvalue⟩ := (grisu2 |q|).exists_layout (q < 0) (-4) 15
    refine ⟨s, ?_, ?_⟩
    · simp [Scientific.text, Decimal.text, hneg, toChars, hq, hminus, ← htext]
    · simp only [Scientific.value, Decimal.value, hneg, charsValue, if_neg hq, decide_eq_true_eq,
        ← hvalue]
      split_ifs
      · exact neg_mul _ _
      · rfl

/-- Reading what is printed gives the digits' value. -/
theorem readDouble_toChars (grisu2 : ℚ → Digits) {ws : Bytes} (hws : Blank ws) (q : ℚ)
    {rest : Bytes} (hrest : Ends rest) :
    readDouble (ws ++ (toChars grisu2 q ++ rest)) =
      some (.finite (charsValue grisu2 q), rest) := by
  obtain ⟨s, htext, hvalue⟩ := exists_scientific grisu2 q
  rw [← htext, ← hvalue]
  exact s.readDouble_text hws hrest

/-! ### Room -/

theorem length_formatBuffer_le {buf : Bytes} (h : buf.length ≤ 17) (e : ℤ) :
    (formatBuffer buf e (-4) 15).length ≤ 24 := by
  have hexponent := length_exponentDigits_le (buf.length + e - 1 : ℤ).natAbs
  have hpoint : (ascii ".0").length = 2 := by decide
  have hzero : (ascii "0.").length = 2 := by decide
  simp only [formatBuffer]
  split_ifs
  all_goals
    simp only [List.length_append, List.length_replicate, List.length_cons, List.length_take,
      List.length_drop, appendExponent, hpoint, hzero]
    omega

/-- Whatever is printed leaves room in the array. -/
theorem length_toChars_le (grisu2 : ℚ → Digits) (q : ℚ) : (toChars grisu2 q).length ≤ 25 := by
  have hformat := length_formatBuffer_le (grisu2 |q|).short (grisu2 |q|).decimalExponent
  have hminus : (ascii "-").length = 1 := by decide
  have hzero : (ascii "0.0").length = 3 := by decide
  rw [toChars, List.length_append]
  split_ifs
  all_goals
    simp only [hminus, hzero, List.length_nil]
    omega

/-! ### As JSON numbers -/

theorem isNumberByte_of_isDecimalByte {b : UInt8} (h : isDecimalByte b = true) :
    JsonTree.isNumberByte b = true := by
  simp only [isDecimalByte, Bool.or_eq_true] at h
  rcases h with (h | h) | h <;> simp [JsonTree.isNumberByte, h]

theorem Scientific.isNumberByte_text (s : Scientific) :
    ∀ b ∈ s.text, JsonTree.isNumberByte b = true := by
  intro b hb
  rcases List.mem_append.mp hb with hb | hb
  · exact isNumberByte_of_isDecimalByte (s.mantissa.text_bytes b hb)
  · cases he : s.exponent with
    | none =>
      rw [he] at hb
      cases hb
    | some e =>
      simp only [he, exponentText, appendExponent, List.mem_cons] at hb
      rcases hb with rfl | rfl | hb
      · decide
      · split_ifs <;> decide
      · exact Json.isNumberByte_of_isDigit (isDigit_exponentDigits (s.small e he) b hb)

theorem Scientific.head_text (s : Scientific) :
    ∃ b ∈ s.text.head?, b = 0x2d ∨ isDigit b = true := by
  cases hneg : s.mantissa.neg with
  | true => exact ⟨0x2d, by simp [text, Decimal.text, hneg], .inl rfl⟩
  | false =>
    cases hw : s.mantissa.whole with
    | nil => exact absurd hw s.mantissa.whole_ne
    | cons b w =>
      refine ⟨b, by simp [text, Decimal.text, Decimal.magnitudeText, hneg, hw], .inr ?_⟩
      exact s.mantissa.whole_digits b (by simp [hw])

/-- `dump_float` for finite numbers. -/
def toCharsFormat (grisu2 : ℚ → Digits) : Json.FloatFormat where
  text := toChars grisu2
  head := by
    intro q
    obtain ⟨s, htext, -⟩ := exists_scientific grisu2 q
    exact htext ▸ s.head_text

theorem numeric_toCharsFormat (grisu2 : ℚ → Digits) : (toCharsFormat grisu2).Numeric := by
  intro q
  obtain ⟨s, htext, -⟩ := exists_scientific grisu2 q
  change ∀ b ∈ toChars grisu2 q, JsonTree.isNumberByte b = true
  rw [← htext]
  exact s.isNumberByte_text

end ComputerMonitor
