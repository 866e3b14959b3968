import ComputerMonitor.Support.Double

/-! The conversions of `scanf` on a byte string.  Every conversion modelled here first skips blanks,
so a blank directive between two conversions has nothing left to do and formats are plain lists. -/

namespace ComputerMonitor.Scan

open Bytes

def skipSpace (s : Bytes) : Bytes := s.dropWhile isSpace

/-- `%s`: the longest blank-free run, which must not be empty. -/
def readWord (s : Bytes) : Option (Bytes × Bytes) :=
  let s := skipSpace s
  let w := s.takeWhile fun b => !isSpace b
  if w = [] then none else some (w, s.dropWhile fun b => !isSpace b)

/-- An optional sign; `true` for a minus. -/
def readSign : Bytes → Bool × Bytes
  | [] => (false, [])
  | b :: s => if b = 0x2d then (true, s) else if b = 0x2b then (false, s) else (false, b :: s)

def lower (b : UInt8) : UInt8 := if 0x41 ≤ b && b ≤ 0x5a then b + 0x20 else b

/-- `s` starts with `word`, letters compared without case. -/
def startsWith (word s : Bytes) : Bool := word.isPrefixOf (s.map lower)

def isHexDigit (b : UInt8) : Bool :=
  isDigit b || (0x61 ≤ lower b && lower b ≤ 0x66)

/-- The exponent after a mantissa.  An exponent letter with no digits after it is the prefix of
a number but not a number, which `scanf` treats as a matching failure.  This is ISO C: glibc also
takes `1e`, `1e+`, `0x1p` and `0x.`, as numbers without the exponent or the fraction. -/
def readExponent (letter : UInt8) : Bytes → Option (ℤ × Bytes)
  | [] => some (0, [])
  | b :: s =>
    if lower b = letter then
      let (neg, t) := readSign s
      let ds := t.takeWhile isDigit
      if ds = [] then none
      else some (if neg then -(numVal 10 ds : ℤ) else numVal 10 ds, t.dropWhile isDigit)
    else some (0, b :: s)

/-- The digits after a radix point, when there is one. -/
def readFraction (digit : UInt8 → Bool) : Bytes → Bytes × Bytes
  | [] => ([], [])
  | b :: s => if b = 0x2e then (s.takeWhile digit, s.dropWhile digit) else ([], b :: s)

/-- Digits in `base` with an optional radix point and an exponent of the power `expBase`. -/
def readMantissa (base : ℕ) (digit : UInt8 → Bool) (expBase : ℚ) (letter : UInt8) (s : Bytes) :
    Option (ℚ × Bytes) :=
  let whole := s.takeWhile digit
  let (frac, t) := readFraction digit (s.dropWhile digit)
  if whole = [] ∧ frac = [] then none
  else (readExponent letter t).map fun (e, t) =>
    ((numVal base (whole ++ frac) : ℚ) / (base : ℚ) ^ frac.length * expBase ^ e, t)

/-- An unsigned number as `strtod` reads it: an infinity, NaN, hexadecimal or decimal. -/
def readMagnitude (s : Bytes) : Option (Double × Bytes) :=
  if startsWith (ascii "infinity") s then some (.inf false, s.drop 8)
  else if startsWith (ascii "infi") s then none
  else if startsWith (ascii "inf") s then some (.inf false, s.drop 3)
  else if startsWith (ascii "nan") s then some (.nan, s.drop 3)
  else if startsWith (ascii "0x") s then
    (readMantissa 16 isHexDigit 2 0x70 (s.drop 2)).map fun (q, t) => (.finite q, t)
  else (readMantissa 10 isDigit 10 0x65 s).map fun (q, t) => (.finite q, t)

/-- `%lf`. -/
def readDouble (s : Bytes) : Option (Double × Bytes) :=
  let (neg, t) := readSign (skipSpace s)
  (readMagnitude t).map fun (x, u) => (if neg then -x else x, u)

/-- The integer behind `%u` and `%lu`: `strtoul`, which saturates and negates modulo `2 ^ 64`. -/
def readULong (s : Bytes) : Option (UInt64 × Bytes) :=
  let (neg, t) := readSign (skipSpace s)
  let ds := t.takeWhile isDigit
  if ds = [] then none
  else
    let n := numVal 10 ds
    let v := if 2 ^ 64 ≤ n then UInt64.ofNat (2 ^ 64 - 1)
      else if neg then -UInt64.ofNat n else UInt64.ofNat n
    some (v, t.dropWhile isDigit)

/-- `%s`, `%*s`, `%lf`, `%u` and `%lu`. -/
inductive Conv
  | word
  | skip
  | double
  | uint
  | ulong

/-- A converted value on its way to the argument it is stored to. -/
inductive Item
  | word : Bytes → Item
  | double : Double → Item
  | uint : UInt32 → Item
  | ulong : UInt64 → Item
  deriving DecidableEq

def Item.double? : Item → Option Double
  | .double x => some x
  | .word _ => none
  | .uint _ => none
  | .ulong _ => none

/-- One conversion: what it stores, and the input it leaves. -/
def Conv.read : Conv → Bytes → Option (List Item × Bytes)
  | .word, s => (readWord s).map fun (w, t) => ([.word w], t)
  | .skip, s => (readWord s).map fun (_, t) => ([], t)
  | .double, s => (readDouble s).map fun (x, t) => ([.double x], t)
  | .uint, s => (readULong s).map fun (n, t) => ([.uint n.toUInt32], t)
  | .ulong, s => (readULong s).map fun (n, t) => ([.ulong n], t)

/-- The conversions of a format in order, up to the first that fails.  The number of values is what
`scanf` returns (or EOF for none, where the input ran out first). -/
def scan : List Conv → Bytes → List Item × Bytes
  | [], s => ([], s)
  | c :: cs, s =>
    match c.read s with
    | none => ([], s)
    | some (xs, t) => (xs ++ (scan cs t).1, (scan cs t).2)

/-- `sscanf` on a buffer: the input is the C string in it. -/
def sscanf (buf : Bytes) (format : List Conv) : List Item := (scan format (cstr buf)).1

theorem scan_cons {c : Conv} {s t : Bytes} {xs : List Item} (h : c.read s = some (xs, t))
    (cs : List Conv) : scan (c :: cs) s = (xs ++ (scan cs t).1, (scan cs t).2) := by
  simp [scan, h]

theorem scan_fail {c : Conv} {s : Bytes} (h : c.read s = none) (cs : List Conv) :
    scan (c :: cs) s = ([], s) := by
  simp [scan, h]

theorem Conv.read_space {b : UInt8} (hb : isSpace b = true) (c : Conv) (s : Bytes) :
    c.read (b :: s) = c.read s := by
  have h : skipSpace (b :: s) = skipSpace s := by simp [skipSpace, hb]
  cases c <;> simp only [Conv.read, readWord, readDouble, readULong, h]

/-! ### Words -/

theorem skipSpace_blank {ws s : Bytes} (hws : Blank ws) (hs : Stops isSpace s) :
    skipSpace (ws ++ s) = s := dropWhile_run hws hs

theorem readWord_word {ws w rest : Bytes} (hws : Blank ws) (hw : Solid w) (hne : w ≠ [])
    (hrest : Ends rest) : readWord (ws ++ (w ++ rest)) = some (w, rest) := by
  have hrun : ∀ b ∈ w, (!isSpace b) = true := fun b hb => by simp [hw b hb]
  rw [readWord, skipSpace_blank hws (hw.stops hne)]
  rw [takeWhile_run hrun hrest, dropWhile_run hrun hrest, if_neg hne]

theorem readWord_blank {ws : Bytes} (h : Blank ws) : readWord ws = none := by
  have : skipSpace ws = [] := by simpa using skipSpace_blank (s := []) h (by simp)
  simp [readWord, this]

/-- On blanks alone a format that starts with `%s` fails at once. -/
theorem scan_word_blank {ws : Bytes} (h : Blank ws) (cs : List Conv) :
    scan (.word :: cs) ws = ([], ws) :=
  scan_fail (by rw [Conv.read, readWord_blank h, Option.map_none]) cs

theorem readWord_eq_some {s w t : Bytes} (h : readWord s = some (w, t)) :
    w ≠ [] ∧ Solid w ∧ skipSpace s = w ++ t ∧ Ends t := by
  rw [readWord] at h
  split at h
  · cases h
  · simp only [Option.some.injEq, Prod.mk.injEq] at h
    obtain ⟨rfl, rfl⟩ := h
    refine ⟨‹_›, ?_, List.takeWhile_append_dropWhile.symm, stops_dropWhile _ _⟩
    intro b hb
    simpa using List.mem_takeWhile_imp hb

/-! ### What is left of the input -/

theorem readSign_suffix (s : Bytes) : (readSign s).2 <:+ s := by
  cases s with
  | nil => simp [readSign]
  | cons b s =>
    rw [readSign]
    split_ifs
    · exact List.suffix_cons b s
    · exact List.suffix_cons b s
    · exact List.suffix_rfl

theorem readExponent_suffix {letter : UInt8} {s t : Bytes} {e : ℤ}
    (h : readExponent letter s = some (e, t)) : t <:+ s := by
  cases s with
  | nil =>
    cases h
    exact List.suffix_rfl
  | cons b s =>
    simp only [readExponent] at h
    have hsuf : (readSign s).2.dropWhile isDigit <:+ b :: s :=
      (List.dropWhile_suffix _).trans ((readSign_suffix s).trans (List.suffix_cons b s))
    split_ifs at h
    all_goals cases h
    · exact hsuf
    · exact hsuf
    · exact List.suffix_rfl

theorem readFraction_suffix (digit : UInt8 → Bool) (s : Bytes) :
    (readFraction digit s).2 <:+ s := by
  cases s with
  | nil => simp [readFraction]
  | cons b s =>
    rw [readFraction]
    split_ifs
    · exact (List.dropWhile_suffix _).trans (List.suffix_cons b s)
    · exact List.suffix_rfl

theorem readMantissa_suffix {base : ℕ} {digit : UInt8 → Bool} {expBase : ℚ} {letter : UInt8}
    {s t : Bytes} {q : ℚ} (h : readMantissa base digit expBase letter s = some (q, t)) :
    t <:+ s := by
  simp only [readMantissa] at h
  split_ifs at h
  · obtain ⟨⟨e, u⟩, he, heq⟩ := Option.map_eq_some_iff.mp h
    cases heq
    exact (readExponent_suffix he).trans
      ((readFraction_suffix digit _).trans (List.dropWhile_suffix _))

theorem readMagnitude_suffix {s t : Bytes} {x : Double} (h : readMagnitude s = some (x, t)) :
    t <:+ s := by
  rw [readMagnitude] at h
  split_ifs at h
  · cases h
    exact List.drop_suffix 8 s
  · cases h
    exact List.drop_suffix 3 s
  · cases h
    exact List.drop_suffix 3 s
  · obtain ⟨⟨q, u⟩, hq, heq⟩ := Option.map_eq_some_iff.mp h
    cases heq
    exact (readMantissa_suffix hq).trans (List.drop_suffix 2 s)
  · obtain ⟨⟨q, u⟩, hq, heq⟩ := Option.map_eq_some_iff.mp h
    cases heq
    exact readMantissa_suffix hq

theorem skipSpace_suffix (s : Bytes) : skipSpace s <:+ s := List.dropWhile_suffix _

theorem readDouble_suffix {s t : Bytes} {x : Double} (h : readDouble s = some (x, t)) :
    t <:+ s := by
  obtain ⟨⟨y, u⟩, hy, heq⟩ := Option.map_eq_some_iff.mp h
  cases heq
  exact (readMagnitude_suffix hy).trans ((readSign_suffix _).trans (skipSpace_suffix s))

theorem readULong_suffix {s t : Bytes} {n : UInt64} (h : readULong s = some (n, t)) :
    t <:+ s := by
  simp only [readULong] at h
  split_ifs at h
  all_goals
    cases h
    exact (List.dropWhile_suffix _).trans ((readSign_suffix _).trans (skipSpace_suffix s))

theorem readWord_suffix {s w t : Bytes} (h : readWord s = some (w, t)) : t <:+ s := by
  obtain ⟨-, -, hs, -⟩ := readWord_eq_some h
  exact (hs ▸ List.suffix_append w t).trans (skipSpace_suffix s)

/-- A word takes at least one byte. -/
theorem length_readWord {s w t : Bytes} (h : readWord s = some (w, t)) : t.length < s.length := by
  obtain ⟨hne, -, hs, -⟩ := readWord_eq_some h
  have hlen := congrArg List.length hs
  have hw := List.length_pos_iff.mpr hne
  have hle := (skipSpace_suffix s).length_le
  rw [List.length_append] at hlen
  omega

theorem Conv.read_suffix {c : Conv} {s t : Bytes} {xs : List Item} (h : c.read s = some (xs, t)) :
    t <:+ s := by
  cases c <;> obtain ⟨⟨y, u⟩, hy, heq⟩ := Option.map_eq_some_iff.mp h <;> cases heq
  · exact readWord_suffix hy
  · exact readWord_suffix hy
  · exact readDouble_suffix hy
  · exact readULong_suffix hy
  · exact readULong_suffix hy

theorem scan_suffix (cs : List Conv) (s : Bytes) : (scan cs s).2 <:+ s := by
  induction cs generalizing s with
  | nil => exact List.suffix_rfl
  | cons c cs ih =>
    cases h : c.read s with
    | none => rw [scan_fail h]
    | some r =>
      rw [scan_cons h]
      exact (ih r.2).trans (Conv.read_suffix h)

theorem length_scan_word_lt {cs : List Conv} {s : Bytes} (h : (scan (.word :: cs) s).1 ≠ []) :
    (scan (.word :: cs) s).2.length < s.length := by
  cases hw : Conv.word.read s with
  | none =>
    rw [scan_fail hw] at h
    exact absurd rfl h
  | some r =>
    rw [scan_cons hw]
    obtain ⟨w, hword, rfl⟩ := Option.map_eq_some_iff.mp hw
    exact (scan_suffix cs _).length_le.trans_lt (length_readWord hword)

/-- The items that conversions of words and of floating-point numbers yield, up to a failure. -/
inductive Scanned : List Conv → List Item → Prop
  | stop (cs : List Conv) : Scanned cs []
  | word {cs : List Conv} {items : List Item} (w : Bytes) :
      Scanned cs items → Scanned (.word :: cs) (.word w :: items)
  | double {cs : List Conv} {items : List Item} (x : Double) :
      Scanned cs items → Scanned (.double :: cs) (.double x :: items)

theorem scanned_scan {cs : List Conv} (h : ∀ c ∈ cs, c = .word ∨ c = .double) (s : Bytes) :
    Scanned cs (scan cs s).1 := by
  induction cs generalizing s with
  | nil => exact .stop []
  | cons c cs ih =>
    have htail := ih fun d hd => h d (by simp [hd])
    cases hr : c.read s with
    | none =>
      rw [scan_fail hr]
      exact .stop _
    | some r =>
      rw [scan_cons hr]
      rcases h c (by simp) with rfl | rfl
      · obtain ⟨w, -, rfl⟩ := Option.map_eq_some_iff.mp hr
        exact .word w.1 (htail w.2)
      · obtain ⟨x, -, rfl⟩ := Option.map_eq_some_iff.mp hr
        exact .double x.1 (htail x.2)

/-- The words a scan stores are words. -/
theorem solid_of_mem_scan {cs : List Conv} {s w : Bytes} (h : .word w ∈ (scan cs s).1) :
    Solid w := by
  induction cs generalizing s with
  | nil => cases h
  | cons c cs ih =>
    cases hr : c.read s with
    | none =>
      rw [scan_fail hr] at h
      cases h
    | some r =>
      rw [scan_cons hr] at h
      rcases List.mem_append.mp h with h | h
      · cases c <;> obtain ⟨⟨y, u⟩, hy, rfl⟩ := Option.map_eq_some_iff.mp hr <;> simp at h
        subst h
        exact (readWord_eq_some hy).2.1
      · exact ih h

/-! ### Decimal numbers -/

/-- A decimal number as the tables of a report print it: `-12`, `3.50`. -/
structure Decimal where
  neg : Bool
  whole : Bytes
  fraction : Option Bytes
  whole_ne : whole ≠ []
  whole_digits : ∀ b ∈ whole, isDigit b = true
  fraction_digits : ∀ f ∈ fraction, ∀ b ∈ f, isDigit b = true

namespace Decimal

def fractionText : Option Bytes → Bytes
  | none => []
  | some f => 0x2e :: f

def magnitudeText (d : Decimal) : Bytes := d.whole ++ fractionText d.fraction

def text (d : Decimal) : Bytes := (if d.neg then [0x2d] else []) ++ d.magnitudeText

def magnitude (d : Decimal) : ℚ :=
  (numVal 10 (d.whole ++ d.fraction.getD []) : ℚ) / 10 ^ (d.fraction.getD []).length

def value (d : Decimal) : ℚ := if d.neg then -d.magnitude else d.magnitude

def ofNat (n : ℕ) : Decimal where
  neg := false
  whole := decimal n
  fraction := none
  whole_ne := decimal_ne_nil n
  whole_digits := decimal_digits n
  fraction_digits := by simp

@[simp] theorem text_ofNat (n : ℕ) : (ofNat n).text = decimal n := by
  simp [text, magnitudeText, fractionText, ofNat]

@[simp] theorem value_ofNat (n : ℕ) : (ofNat n).value = n := by
  simp [value, magnitude, ofNat]

end Decimal

/-- The bytes a decimal number is written with. -/
def isDecimalByte (b : UInt8) : Bool := isDigit b || b == 0x2d || b == 0x2e

theorem Decimal.text_bytes (d : Decimal) : ∀ b ∈ d.text, isDecimalByte b = true := by
  intro b hb
  simp only [text, magnitudeText, List.mem_append] at hb
  rcases hb with hb | hb | hb
  · split at hb
    · rw [List.mem_singleton.mp hb]
      decide
    · cases hb
  · simp [isDecimalByte, d.whole_digits b hb]
  · cases hf : d.fraction with
    | none => simp [hf, fractionText] at hb
    | some f =>
      simp only [hf, fractionText, List.mem_cons] at hb
      rcases hb with rfl | hb
      · decide
      · simp [isDecimalByte, d.fraction_digits f hf b hb]

theorem Decimal.notMem_text {b : UInt8} (hb : isDecimalByte b = false) (d : Decimal) :
    b ∉ d.text := by
  intro h
  rw [d.text_bytes b h] at hb
  cases hb

theorem isSpace_of_isDecimalByte {b : UInt8} (h : isDecimalByte b = true) : isSpace b = false := by
  simp [isDigit, isSpace, isDecimalByte, UInt8.le_iff_toNat_le, ← UInt8.toNat_inj] at *
  omega

theorem Decimal.text_solid (d : Decimal) : Solid d.text :=
  fun b hb => isSpace_of_isDecimalByte (d.text_bytes b hb)

theorem Decimal.magnitudeText_ne_nil (d : Decimal) : d.magnitudeText ≠ [] := by
  simp [magnitudeText, d.whole_ne]

theorem Decimal.text_ne_nil (d : Decimal) : d.text ≠ [] := by
  simp [text, d.magnitudeText_ne_nil]

theorem lower_of_isDigit {b : UInt8} (h : isDigit b = true) : lower b = b := by
  simp [isDigit, lower, UInt8.le_iff_toNat_le, ← UInt8.toNat_inj] at *
  omega

theorem lower_of_isSpace {b : UInt8} (h : isSpace b = true) : lower b = b := by
  simp [isSpace, lower, UInt8.le_iff_toNat_le, ← UInt8.toNat_inj] at *
  omega

/-- The bytes with which a decimal mantissa would go on. -/
def continues (b : UInt8) : Bool := isDigit b || b == 0x2e || lower b == 0x78

theorem continues_of_isSpace {b : UInt8} (h : isSpace b = true) : continues b = false := by
  have hpoint : b ≠ 0x2e := by
    rintro rfl
    exact absurd h (by decide)
  have hx : b ≠ 0x78 := by
    rintro rfl
    exact absurd h (by decide)
  simp [continues, isDigit_of_isSpace h, lower_of_isSpace h, hpoint, hx]

/-- What ends a number. -/
theorem stops_of_ends {rest : Bytes} (h : Ends rest) : Stops continues rest := by
  intro b hb
  exact continues_of_isSpace (by simpa using h b hb)

theorem stops_isDigit {rest : Bytes} (h : Stops continues rest) : Stops isDigit rest :=
  h.mono fun _ hb => (Bool.or_eq_false_iff.mp (Bool.or_eq_false_iff.mp hb).1).1

theorem readFraction_text {f : Option Bytes} (hf : ∀ g ∈ f, ∀ b ∈ g, isDigit b = true)
    {rest : Bytes} (hrest : Stops continues rest) :
    readFraction isDigit (Decimal.fractionText f ++ rest) = (f.getD [], rest) := by
  cases f with
  | none =>
    cases rest with
    | nil => rfl
    | cons b rest =>
      have hb : b ≠ 0x2e := by
        rintro rfl
        simp [continues] at hrest
      simp [Decimal.fractionText, readFraction, hb]
  | some f =>
    have hrun := hf f rfl
    simp [Decimal.fractionText, readFraction, takeWhile_run hrun (stops_isDigit hrest),
      dropWhile_run hrun (stops_isDigit hrest)]

theorem readExponent_ends {rest : Bytes} (hrest : Ends rest) :
    readExponent 0x65 rest = some (0, rest) := by
  cases rest with
  | nil => rfl
  | cons b rest =>
    have hsp : isSpace b = true := by simpa using hrest
    have hb : lower b ≠ 0x65 := by
      rw [lower_of_isSpace hsp]
      rintro rfl
      simp [isSpace] at hsp
    simp [readExponent, hb]

theorem fractionText_stops {f : Option Bytes} {rest : Bytes} (hrest : Stops continues rest) :
    Stops isDigit (Decimal.fractionText f ++ rest) := by
  cases f with
  | none => exact stops_isDigit hrest
  | some f => simp [Decimal.fractionText, isDigit]

/-- A decimal mantissa, with whatever exponent there is behind it. -/
theorem readMantissa_decimal (d : Decimal) {rest t : Bytes} {e : ℤ}
    (hrest : Stops continues rest) (he : readExponent 0x65 rest = some (e, t)) :
    readMantissa 10 isDigit 10 0x65 (d.magnitudeText ++ rest) =
      some (d.magnitude * 10 ^ e, t) := by
  have hstop : Stops isDigit (Decimal.fractionText d.fraction ++ rest) := fractionText_stops hrest
  simp only [readMantissa, Decimal.magnitudeText, List.append_assoc,
    takeWhile_run d.whole_digits hstop, dropWhile_run d.whole_digits hstop,
    readFraction_text d.fraction_digits hrest, he, d.whole_ne]
  simp [Decimal.magnitude]

/-- A text whose second byte is not an `x` and whose first is a digit is read as a decimal. -/
theorem readMagnitude_of_digit {b : UInt8} {s : Bytes} (hb : isDigit b = true)
    (hs : Stops (fun c => lower c == 0x78) s) :
    readMagnitude (b :: s) =
      (readMantissa 10 isDigit 10 0x65 (b :: s)).map fun (q, t) => (.finite q, t) := by
  have hi : (0x69 : UInt8) ≠ b := by
    rintro rfl
    simp [isDigit] at hb
  have hn : (0x6e : UInt8) ≠ b := by
    rintro rfl
    simp [isDigit] at hb
  have hx : startsWith (ascii "0x") (b :: s) = false := by
    cases s with
    | nil => simp [startsWith, ascii, List.isPrefixOf]
    | cons c s =>
      have hc : lower c ≠ 0x78 := by simpa using hs
      simp [startsWith, ascii, List.isPrefixOf, hc.symm]
  have hinf : ∀ w, startsWith (0x69 :: w) (b :: s) = false := fun w => by
    simp [startsWith, List.isPrefixOf, lower_of_isDigit hb, hi]
  have hnan : ∀ w, startsWith (0x6e :: w) (b :: s) = false := fun w => by
    simp [startsWith, List.isPrefixOf, lower_of_isDigit hb, hn]
  rw [readMagnitude, show ascii "infinity" = 0x69 :: ascii "nfinity" by decide,
    show ascii "infi" = 0x69 :: ascii "nfi" by decide,
    show ascii "inf" = 0x69 :: ascii "nf" by decide,
    show ascii "nan" = 0x6e :: ascii "an" by decide, hinf, hinf, hinf, hnan, hx]
  simp

theorem readMagnitude_decimal (d : Decimal) {rest t : Bytes} {e : ℤ}
    (hrest : Stops continues rest) (he : readExponent 0x65 rest = some (e, t)) :
    readMagnitude (d.magnitudeText ++ rest) = some (.finite (d.magnitude * 10 ^ e), t) := by
  cases hw : d.whole with
  | nil => exact absurd hw d.whole_ne
  | cons b w =>
    have hdig : ∀ c ∈ b :: w, isDigit c = true := hw ▸ d.whole_digits
    have hx : Stops (fun c => lower c == 0x78)
        (w ++ (Decimal.fractionText d.fraction ++ rest)) := by
      refine .append_of_forall (fun c hc => ?_) ?_
      · have hc : isDigit c = true := hdig c (by simp [hc])
        rw [lower_of_isDigit hc, beq_eq_false_iff_ne]
        rintro rfl
        exact absurd hc (by decide)
      · cases d.fraction with
        | none => exact hrest.mono fun _ hc => (Bool.or_eq_false_iff.mp hc).2
        | some f => simp [Decimal.fractionText, lower]
    have hcons : d.magnitudeText ++ rest =
        b :: (w ++ (Decimal.fractionText d.fraction ++ rest)) := by
      simp [Decimal.magnitudeText, hw]
    rw [hcons, readMagnitude_of_digit (hdig b (by simp)) hx, ← hcons,
      readMantissa_decimal d hrest he]
    rfl

theorem readSign_text (d : Decimal) (rest : Bytes) :
    readSign (d.text ++ rest) = (d.neg, d.magnitudeText ++ rest) := by
  cases hneg : d.neg with
  | true => simp [Decimal.text, hneg, readSign]
  | false =>
    cases hw : d.whole with
    | nil => exact absurd hw d.whole_ne
    | cons b w =>
      have hb : isDigit b = true := d.whole_digits b (by simp [hw])
      have hminus : b ≠ 0x2d := by
        rintro rfl
        exact absurd hb (by decide)
      have hplus : b ≠ 0x2b := by
        rintro rfl
        exact absurd hb (by decide)
      simp [Decimal.text, Decimal.magnitudeText, hneg, hw, readSign, hminus, hplus]

theorem readDouble_mantissa {ws : Bytes} (hws : Blank ws) (d : Decimal) {rest t : Bytes} {e : ℤ}
    (hrest : Stops continues rest) (he : readExponent 0x65 rest = some (e, t)) :
    readDouble (ws ++ (d.text ++ rest)) = some (.finite (d.value * 10 ^ e), t) := by
  rw [readDouble, skipSpace_blank hws (d.text_solid.stops d.text_ne_nil), readSign_text]
  simp only [readMagnitude_decimal d hrest he, Option.map_some, Decimal.value]
  cases d.neg with
  | false => rfl
  | true => simp

theorem readDouble_decimal {ws : Bytes} (hws : Blank ws) (d : Decimal) {rest : Bytes}
    (hrest : Ends rest) :
    readDouble (ws ++ (d.text ++ rest)) = some (.finite d.value, rest) := by
  rw [readDouble_mantissa hws d (stops_of_ends hrest) (readExponent_ends hrest), zpow_zero, mul_one]

/-- Numbers that do not fit are read as the largest one. -/
theorem readULong_min {ws : Bytes} (hws : Blank ws) (n : ℕ) {rest : Bytes}
    (hrest : Stops isDigit rest) :
    readULong (ws ++ (decimal n ++ rest)) = some (.ofNat (min n (2 ^ 64 - 1)), rest) := by
  have hsign : readSign (decimal n ++ rest) = (false, decimal n ++ rest) := by
    have h := readSign_text (Decimal.ofNat n) rest
    rw [Decimal.text_ofNat] at h
    simpa [Decimal.magnitudeText, Decimal.fractionText, Decimal.ofNat] using h
  rw [readULong, skipSpace_blank hws ((decimal_solid n).stops (decimal_ne_nil n)), hsign]
  simp only [takeWhile_run (decimal_digits n) hrest, dropWhile_run (decimal_digits n) hrest,
    decimal_ne_nil, if_false, numVal_decimal, Bool.false_eq_true]
  by_cases hn : 2 ^ 64 ≤ n
  · rw [if_pos hn, min_eq_right (by omega)]
  · rw [if_neg hn, min_eq_left (by omega)]

theorem readULong_decimal {ws : Bytes} (hws : Blank ws) {n : ℕ} (hn : n < 2 ^ 64) {rest : Bytes}
    (hrest : Stops isDigit rest) :
    readULong (ws ++ (decimal n ++ rest)) = some (UInt64.ofNat n, rest) := by
  rw [readULong_min hws n hrest, min_eq_left (by omega)]

/-! ### Whole directives -/

theorem read_word {ws w rest : Bytes} (hws : Blank ws) (hw : Solid w) (hne : w ≠ [])
    (hrest : Ends rest) : Conv.word.read (ws ++ (w ++ rest)) = some ([.word w], rest) := by
  simp [Conv.read, readWord_word hws hw hne hrest]

theorem read_skip {ws w rest : Bytes} (hws : Blank ws) (hw : Solid w) (hne : w ≠ [])
    (hrest : Ends rest) : Conv.skip.read (ws ++ (w ++ rest)) = some ([], rest) := by
  simp [Conv.read, readWord_word hws hw hne hrest]

theorem read_double {ws : Bytes} (hws : Blank ws) (d : Decimal) {rest : Bytes}
    (hrest : Ends rest) :
    Conv.double.read (ws ++ (d.text ++ rest)) = some ([.double (.finite d.value)], rest) := by
  simp [Conv.read, readDouble_decimal hws d hrest]

theorem read_uint {ws : Bytes} (hws : Blank ws) {n : ℕ} (hn : n < 2 ^ 64) {rest : Bytes}
    (hrest : Stops isDigit rest) :
    Conv.uint.read (ws ++ (decimal n ++ rest)) = some ([.uint (UInt32.ofNat n)], rest) := by
  simp [Conv.read, readULong_decimal hws hn hrest]

theorem read_ulong {ws : Bytes} (hws : Blank ws) (n : ℕ) {rest : Bytes}
    (hrest : Stops isDigit rest) :
    Conv.ulong.read (ws ++ (decimal n ++ rest)) =
      some ([.ulong (.ofNat (min n (2 ^ 64 - 1)))], rest) := by
  simp [Conv.read, readULong_min hws n hrest]

/-- A row of blank-separated unsigned numbers. -/
def numbers (ns : List ℕ) : Bytes := ns.flatMap fun n => 0x20 :: decimal n

theorem numbers_cons (n : ℕ) (ns : List ℕ) :
    numbers (n :: ns) = 0x20 :: decimal n ++ numbers ns := rfl

/-- Every number of the row converts, also behind further blanks. -/
theorem scan_uints {ns : List ℕ} (h : ∀ n ∈ ns, n < 2 ^ 64) {ws rest : Bytes}
    (hws : Blank ws) (hne : ns ≠ []) (hrest : Stops isDigit rest) :
    scan (ns.map fun _ => .uint) (ws ++ (numbers ns ++ rest)) =
      (ns.map fun n => .uint (UInt32.ofNat n), rest) := by
  induction ns generalizing ws with
  | nil => exact absurd rfl hne
  | cons n ns ih =>
    have hpad : Blank (ws ++ [0x20]) := hws.append (by simp [isSpace])
    have hn : n < 2 ^ 64 := h n (by simp)
    cases ns with
    | nil =>
      have hread : Conv.uint.read (ws ++ (numbers [n] ++ rest)) =
          some ([.uint (UInt32.ofNat n)], rest) := by
        simpa [numbers] using read_uint hpad hn hrest
      simp [scan, hread]
    | cons m ns =>
      have hstop : Stops isDigit (numbers (m :: ns) ++ rest) := by simp [numbers_cons, isDigit]
      have hread : Conv.uint.read (ws ++ (numbers (n :: m :: ns) ++ rest)) =
          some ([.uint (UInt32.ofNat n)], numbers (m :: ns) ++ rest) := by
        simpa [numbers_cons] using read_uint hpad hn hstop
      have := ih (fun k hk => h k (by simp [hk])) .nil (by simp)
      rw [List.map_cons, scan_cons hread, ← List.nil_append (numbers (m :: ns) ++ rest), this]
      rfl

end ComputerMonitor.Scan
