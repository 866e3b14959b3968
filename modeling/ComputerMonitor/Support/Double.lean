import ComputerMonitor.Support.Bytes

/-! The `double` values of a C program in exact arithmetic: rationals for the finite ones, with the
infinities and NaN where IEEE 754 yields them.  Rounding, overflow and the sign of zero are left
out; everything a zero divisor gives treats zero as positive. -/

namespace ComputerMonitor

inductive Double
  | finite : ℚ → Double
  | inf : Bool → Double
  | nan : Double
  deriving DecidableEq

namespace Double

def neg : Double → Double
  | .finite q => .finite (-q)
  | .inf s => .inf (!s)
  | .nan => .nan

def add : Double → Double → Double
  | .finite a, .finite b => .finite (a + b)
  | .inf s, .inf t => if s = t then .inf s else .nan
  | .inf s, .finite _ => .inf s
  | .finite _, .inf t => .inf t
  | .nan, _ => .nan
  | _, .nan => .nan

def div : Double → Double → Double
  | .finite a, .finite b =>
    if b = 0 then if a = 0 then .nan else .inf (a < 0) else .finite (a / b)
  | .inf s, .finite b => .inf (xor s (b < 0))
  | .finite _, .inf _ => .finite 0
  | .inf _, .inf _ => .nan
  | .nan, _ => .nan
  | _, .nan => .nan

/-- The comparison `x < y`, false whenever NaN takes part. -/
def lt : Double → Double → Bool
  | .finite a, .finite b => a < b
  | .inf s, .inf t => s && !t
  | .inf s, .finite _ => s
  | .finite _, .inf t => !t
  | .nan, _ => false
  | _, .nan => false

instance : Zero Double := ⟨.finite 0⟩
instance : One Double := ⟨.finite 1⟩
instance : Neg Double := ⟨neg⟩
instance : Add Double := ⟨add⟩
instance : Sub Double := ⟨fun x y => x + -y⟩
instance : Div Double := ⟨div⟩
instance : NatCast Double := ⟨fun n => .finite n⟩

theorem zero_def : (0 : Double) = .finite 0 := rfl

theorem one_def : (1 : Double) = .finite 1 := rfl

theorem natCast_def (n : ℕ) : (n : Double) = .finite n := rfl

@[simp] theorem finite_add (a b : ℚ) : finite a + finite b = finite (a + b) := rfl

@[simp] theorem neg_finite (a : ℚ) : -finite a = finite (-a) := rfl

@[simp] theorem finite_sub (a b : ℚ) : finite a - finite b = finite (a - b) := by
  change finite (a + -b) = _
  rw [sub_eq_add_neg]

theorem finite_div (a : ℚ) {b : ℚ} (h : b ≠ 0) : finite a / finite b = finite (a / b) := by
  change div _ _ = _
  simp [div, h]

@[simp] theorem lt_finite (a b : ℚ) : lt (finite a) (finite b) = decide (a < b) := rfl

/-- Multiplication by a positive rational. -/
def scale (c : ℚ) : Double → Double
  | .finite q => .finite (q * c)
  | .inf s => .inf s
  | .nan => .nan

theorem scale_div {c : ℚ} (hc : 0 < c) (x : Double) : scale c (x / finite c) = x := by
  cases x with
  | finite q => rw [finite_div q hc.ne', scale, div_mul_cancel₀ q hc.ne']
  | inf s =>
    change scale c (.inf (xor s (c < 0))) = _
    simp [scale, not_lt.mpr hc.le]
  | nan => rfl

/-- The order of the finite values. -/
def Le (x y : Double) : Prop := ∃ a b : ℚ, x = .finite a ∧ y = .finite b ∧ a ≤ b

theorem Le.add {x y x' y' : Double} (h : Le x y) (h' : Le x' y') : Le (x + x') (y + y') := by
  obtain ⟨a, b, rfl, rfl, hab⟩ := h
  obtain ⟨a', b', rfl, rfl, hab'⟩ := h'
  exact ⟨a + a', b + b', rfl, rfl, add_le_add hab hab'⟩

theorem Le.div {x y : Double} (h : Le x y) {c : ℚ} (hc : 0 < c) :
    Le (x / finite c) (y / finite c) := by
  obtain ⟨a, b, rfl, rfl, hab⟩ := h
  rw [finite_div a hc.ne', finite_div b hc.ne']
  exact ⟨a / c, b / c, rfl, rfl, div_le_div_of_nonneg_right hab hc.le⟩

/-! ### Fixed-point rendering -/

/-- The natural number nearest to `q ≥ 0`, ties to even. -/
def roundHalfEven (q : ℚ) : ℕ :=
  let n := q.floor.toNat
  if q - n < 1 / 2 then n else if 1 / 2 < q - n then n + 1 else n + n % 2

/-- `printf("%.<d>f")`, which is also what `{:.<d>f}` and, with six digits, `std::to_string`
print.  The sign of a NaN is left out: that of `0 / 0` is printed as `-nan` on x86. -/
def toFixed (d : ℕ) : Double → Bytes
  | .finite q =>
    let n := roundHalfEven (|q| * 10 ^ d)
    let frac := Bytes.decimal (n % 10 ^ d)
    (if q < 0 then Bytes.ascii "-" else []) ++ Bytes.decimal (n / 10 ^ d) ++ Bytes.ascii "." ++
      List.replicate (d - frac.length) 0x30 ++ frac
  | .inf s => (if s then Bytes.ascii "-" else []) ++ Bytes.ascii "inf"
  | .nan => Bytes.ascii "nan"

example : toFixed 2 (.finite (29 / 200)) = Bytes.ascii "0.14" := by decide +kernel

theorem lt_128_of_isDigit {b : UInt8} (h : Bytes.isDigit b = true) : b < 0x80 := by
  simp [Bytes.isDigit, UInt8.le_iff_toNat_le, UInt8.lt_iff_toNat_lt] at *
  omega

theorem decimal_lt_128 (n : ℕ) : ∀ b ∈ Bytes.decimal n, b < 0x80 :=
  fun b hb => lt_128_of_isDigit (Bytes.decimal_digits n b hb)

/-- A rendered number is plain ASCII. -/
theorem toFixed_lt_128 (d : ℕ) (x : Double) : ∀ b ∈ toFixed d x, b < 0x80 := by
  intro b hb
  cases x with
  | finite q =>
    simp only [toFixed, List.mem_append] at hb
    rcases hb with (((hb | hb) | hb) | hb) | hb
    · split at hb
      · revert b
        simp [Bytes.ascii]
      · cases hb
    · exact decimal_lt_128 _ b hb
    · revert b
      simp [Bytes.ascii]
    · rw [List.eq_of_mem_replicate hb]
      decide
    · exact decimal_lt_128 _ b hb
  | inf s =>
    simp only [toFixed] at hb
    revert b
    cases s <;> simp [Bytes.ascii]
  | nan =>
    simp only [toFixed] at hb
    revert b
    simp [Bytes.ascii]

end Double

end ComputerMonitor
