import Mathlib

/-! Byte strings as a C program sees them: blanks, words, C strings and decimal digits. -/

namespace ComputerMonitor

abbrev Bytes := List UInt8

namespace Bytes

/-- The bytes of an ASCII literal. -/
def ascii (s : String) : Bytes := s.toList.map fun c => UInt8.ofNat c.toNat

/-- `isspace` in the C locale. -/
def isSpace (b : UInt8) : Bool := b == 0x20 || (0x09 ≤ b && b ≤ 0x0d)

def isDigit (b : UInt8) : Bool := 0x30 ≤ b && b ≤ 0x39

def newline : UInt8 := 0x0a

/-- What a `char*` at `s` denotes: everything before the first NUL. -/
def cstr (s : Bytes) : Bytes := s.takeWhile (· != 0)

/-- `strncmp(a, b, n) == 0`. -/
def strncmpEq (a b : Bytes) (n : Nat) : Bool := (cstr a).take n == (cstr b).take n

/-! ### Where a maximal run ends -/

/-- `s` is empty or its first byte fails `p`: a run of `p`-bytes before `s` ends at `s`. -/
def Stops (p : UInt8 → Bool) (s : Bytes) : Prop := ∀ b ∈ s.head?, p b = false

@[simp] theorem Stops.nil (p : UInt8 → Bool) : Stops p [] := by
  intro b h
  cases h

@[simp] theorem stops_cons (p : UInt8 → Bool) (b : UInt8) (s : Bytes) :
    Stops p (b :: s) ↔ p b = false := by
  simp [Stops]

theorem Stops.mono {p q : UInt8 → Bool} {s : Bytes} (h : Stops p s)
    (hpq : ∀ b, p b = false → q b = false) : Stops q s :=
  fun b hb => hpq b (h b hb)

theorem Stops.append {p : UInt8 → Bool} {s t : Bytes} (hs : Stops p s)
    (hne : s ≠ []) : Stops p (s ++ t) := by
  cases s with
  | nil => exact absurd rfl hne
  | cons b s => simpa using hs

theorem Stops.append_of_forall {p : UInt8 → Bool} {s t : Bytes} (hs : ∀ b ∈ s, p b = false)
    (ht : Stops p t) : Stops p (s ++ t) := by
  cases s with
  | nil => exact ht
  | cons b s => simpa using hs b (by simp)

theorem Stops.takeWhile {p : UInt8 → Bool} {s : Bytes} (h : Stops p s) : s.takeWhile p = [] := by
  cases s with
  | nil => rfl
  | cons b s => simp [(stops_cons p b s).mp h]

theorem Stops.dropWhile {p : UInt8 → Bool} {s : Bytes} (h : Stops p s) : s.dropWhile p = s := by
  cases s with
  | nil => rfl
  | cons b s => simp [(stops_cons p b s).mp h]

theorem Stops.of_prefix {p : UInt8 → Bool} {s t : Bytes} (h : Stops p t) (hst : s <+: t) :
    Stops p s := by
  cases s with
  | nil => simp
  | cons b s =>
    obtain ⟨u, rfl⟩ := hst
    simpa using h

theorem takeWhile_run {p : UInt8 → Bool} {run rest : Bytes} (hrun : ∀ b ∈ run, p b = true)
    (hrest : Stops p rest) : (run ++ rest).takeWhile p = run := by
  rw [List.takeWhile_append_of_pos hrun, hrest.takeWhile, List.append_nil]

theorem dropWhile_run {p : UInt8 → Bool} {run rest : Bytes} (hrun : ∀ b ∈ run, p b = true)
    (hrest : Stops p rest) : (run ++ rest).dropWhile p = rest := by
  rw [List.dropWhile_append_of_pos hrun, hrest.dropWhile]

theorem stops_dropWhile (p : UInt8 → Bool) (s : Bytes) : Stops p (s.dropWhile p) := by
  induction s with
  | nil => simp
  | cons b s ih =>
    rw [List.dropWhile_cons]
    cases hb : p b with
    | true => simpa using ih
    | false => simpa using hb

/-! ### Blanks and words -/

/-- Nothing but blanks. -/
def Blank (s : Bytes) : Prop := ∀ b ∈ s, isSpace b = true

/-- Not a single blank. -/
def Solid (s : Bytes) : Prop := ∀ b ∈ s, isSpace b = false

instance (s : Bytes) : Decidable (Blank s) :=
  decidable_of_iff (s.all isSpace = true) List.all_eq_true

instance (s : Bytes) : Decidable (Solid s) :=
  decidable_of_iff (s.all (fun b => !isSpace b) = true) (by simp [Solid])

@[simp] theorem Blank.nil : Blank [] := by simp [Blank]

@[simp] theorem Blank.cons_iff (b : UInt8) (s : Bytes) :
    Blank (b :: s) ↔ isSpace b = true ∧ Blank s := by
  simp [Blank]

theorem Blank.append {s t : Bytes} (hs : Blank s) (ht : Blank t) : Blank (s ++ t) := by
  intro b hb
  rcases List.mem_append.mp hb with h | h
  · exact hs b h
  · exact ht b h

theorem isSpace_newline : isSpace newline = true := by decide

theorem Solid.newline_notMem {s : Bytes} (h : Solid s) : newline ∉ s := by
  intro hmem
  have := h _ hmem
  rw [isSpace_newline] at this
  cases this

/-- A text that is empty or starts with a blank ends the word before it. -/
abbrev Ends (s : Bytes) : Prop := Stops (fun b => !isSpace b) s

theorem Ends.of_blank {s t : Bytes} (hs : Blank s) (hne : s ≠ []) : Ends (s ++ t) := by
  cases s with
  | nil => exact absurd rfl hne
  | cons b s =>
    have hb : isSpace b = true := hs b (by simp)
    simp [hb]

theorem Solid.stops {w rest : Bytes} (hw : Solid w) (hne : w ≠ []) :
    Stops isSpace (w ++ rest) := by
  cases w with
  | nil => exact absurd rfl hne
  | cons b w => simpa using hw b (by simp)

/-- The blank-free texts that one `%s` can hold. -/
structure Word where
  text : Bytes
  ne : text ≠ []
  solid : Solid text

/-- The blanks between two columns of a line. -/
structure Gap where
  text : Bytes
  blank : Blank text
  ne : text ≠ []
  inLine : newline ∉ text

/-- A single blank. -/
def Gap.space : Gap := ⟨[0x20], by decide, by decide, by decide⟩

theorem Gap.ends (g : Gap) (s : Bytes) : Ends (g.text ++ s) := Ends.of_blank g.blank g.ne

theorem Gap.zero_notMem (g : Gap) : 0 ∉ g.text := fun h => absurd (g.blank 0 h) (by decide)

/-! ### C strings -/

theorem cstr_of_notMem {s : Bytes} (h : 0 ∉ s) : cstr s = s := by
  rw [cstr, List.takeWhile_eq_self_iff]
  intro b hb
  simp only [bne_iff_ne, ne_eq]
  rintro rfl
  exact h hb

theorem zero_notMem_cstr (s : Bytes) : 0 ∉ cstr s := by
  intro h
  have := List.mem_takeWhile_imp h
  simp at this

@[simp] theorem cstr_cstr (s : Bytes) : cstr (cstr s) = cstr s :=
  cstr_of_notMem (zero_notMem_cstr s)

theorem cstr_append {s t : Bytes} (h : 0 ∉ s) : cstr (s ++ t) = s ++ cstr t := by
  rw [cstr, List.takeWhile_append_of_pos]
  · rfl
  · intro b hb
    simp only [bne_iff_ne, ne_eq]
    rintro rfl
    exact h hb

theorem prefix_cstr (s : Bytes) : cstr s <+: s := List.takeWhile_prefix _

theorem Solid.cstr {s : Bytes} (h : Solid s) : Solid (cstr s) :=
  fun b hb => h b ((prefix_cstr s).subset hb)

theorem length_cstr_le (s : Bytes) : (cstr s).length ≤ s.length :=
  (prefix_cstr s).length_le

/-- Against a NUL-free literal of exactly `n` bytes, `strncmp` is a prefix test. -/
theorem strncmpEq_iff_isPrefix {lit s : Bytes} (h : 0 ∉ lit) :
    strncmpEq lit s lit.length = true ↔ lit <+: s := by
  rw [strncmpEq, cstr_of_notMem h, List.take_length, beq_iff_eq]
  constructor
  · intro heq
    rw [heq]
    exact (List.take_prefix _ _).trans (List.takeWhile_prefix _)
  · rintro ⟨t, rfl⟩
    rw [cstr_append h, List.take_left']
    rfl

/-- The newline behind a line makes no difference. -/
theorem strncmpEq_line {lit : Bytes} (h : 0 ∉ lit) (hline : newline ∉ lit) (s : Bytes) :
    strncmpEq lit (s ++ [newline]) lit.length = strncmpEq lit s lit.length := by
  rw [Bool.eq_iff_iff, strncmpEq_iff_isPrefix h, strncmpEq_iff_isPrefix h, List.prefix_concat_iff,
    or_iff_right_iff_imp]
  rintro rfl
  simp at hline

theorem strncmpEq_cstr (a b : Bytes) (n : Nat) : strncmpEq a (cstr b) n = strncmpEq a b n := by
  simp [strncmpEq]

theorem strncmpEq_comm (a b : Bytes) (n : Nat) : strncmpEq a b n = strncmpEq b a n := by
  rw [strncmpEq, strncmpEq, Bool.beq_comm]

/-- The string in a `char[n]`: NUL-free and with room for the terminating NUL. -/
structure CharArray (n : ℕ) where
  str : Bytes
  noNul : 0 ∉ str
  fits : str.length < n
  deriving DecidableEq

namespace CharArray

/-- Storing a scanned text with its terminating NUL; `none` is a store past the end. -/
def store (n : ℕ) (w : Bytes) : Option (CharArray n) :=
  if h : w.length < n then
    some ⟨cstr w, zero_notMem_cstr w, (length_cstr_le w).trans_lt h⟩
  else none

/-- `strcpy(dst, src)` into a `char[n]`. -/
def strcpy {m : ℕ} (n : ℕ) (src : CharArray m) : Option (CharArray n) := store n src.str

theorem store_eq_some {n : ℕ} {w : Bytes} (h : w.length < n) :
    store n w = some ⟨cstr w, zero_notMem_cstr w, (length_cstr_le w).trans_lt h⟩ := dif_pos h

theorem str_of_store {n : ℕ} {w : Bytes} {a : CharArray n} (h : store n w = some a) :
    a.str = cstr w := by
  rw [store] at h
  split at h
  · cases h
    rfl
  · cases h

theorem store_isSome {n : ℕ} {w : Bytes} : (store n w).isSome = true ↔ w.length < n := by
  rw [store]
  split <;> simp_all

theorem strcpy_self {n : ℕ} (src : CharArray n) : strcpy n src = some src := by
  rw [strcpy, store_eq_some src.fits]
  simp [cstr_of_notMem src.noNul]

end CharArray

/-! ### Decimal digits -/

/-- The value of a byte as a digit of a base up to 16. -/
def digitVal (b : UInt8) : Nat :=
  if isDigit b then b.toNat - 0x30
  else if 0x61 ≤ b && b ≤ 0x66 then b.toNat - 0x61 + 10
  else if 0x41 ≤ b && b ≤ 0x46 then b.toNat - 0x41 + 10
  else 0

def numVal (base : Nat) (ds : Bytes) : Nat := ds.foldl (fun n b => base * n + digitVal b) 0

def digitByte (d : Nat) : UInt8 := UInt8.ofNat (0x30 + d)

/-- `std::to_string` of an unsigned integer. -/
def decimal (n : Nat) : Bytes :=
  if n = 0 then [0x30] else (Nat.digits 10 n).reverse.map digitByte

theorem isDigit_digitByte {d : Nat} (h : d < 10) : isDigit (digitByte d) = true := by
  interval_cases d <;> decide

theorem digitVal_digitByte {d : Nat} (h : d < 10) : digitVal (digitByte d) = d := by
  interval_cases d <;> decide

theorem decimal_digits (n : Nat) : ∀ b ∈ decimal n, isDigit b = true := by
  intro b hb
  rw [decimal] at hb
  split at hb
  · rw [List.mem_singleton] at hb
    subst hb
    decide
  · simp only [List.mem_map, List.mem_reverse] at hb
    obtain ⟨d, hd, rfl⟩ := hb
    exact isDigit_digitByte (Nat.digits_lt_base (by decide) hd)

theorem decimal_ne_nil (n : Nat) : decimal n ≠ [] := by
  rw [decimal]
  split
  · simp
  · simpa [Nat.digits_eq_nil_iff_eq_zero] using ‹n ≠ 0›

theorem numVal_map_digitByte (ds : List Nat) (h : ∀ d ∈ ds, d < 10) :
    numVal 10 (ds.reverse.map digitByte) = Nat.ofDigits 10 ds := by
  induction ds with
  | nil => rfl
  | cons d ds ih =>
    have hd : d < 10 := h d (by simp)
    have hds := ih fun e he => h e (by simp [he])
    rw [numVal] at hds ⊢
    rw [List.reverse_cons, List.map_append, List.foldl_append, hds, Nat.ofDigits_cons]
    simp [digitVal_digitByte hd, Nat.add_comm]

@[simp] theorem numVal_decimal (n : Nat) : numVal 10 (decimal n) = n := by
  rw [decimal]
  split
  · subst n
    decide
  · rw [numVal_map_digitByte _ fun d hd => Nat.digits_lt_base (by decide) hd,
      Nat.ofDigits_digits]

theorem decimal_injective : Function.Injective decimal := by
  intro m n h
  simpa using congrArg (numVal 10) h

theorem length_decimal_le {n k : ℕ} (hk : 0 < k) (h : n < 10 ^ k) : (decimal n).length ≤ k := by
  rw [decimal]
  split
  · exact hk
  · simpa using (Nat.digits_length_le_iff (by decide) n).mpr h

theorem isSpace_of_isDigit {b : UInt8} (h : isDigit b = true) : isSpace b = false := by
  simp [isDigit, isSpace, UInt8.le_iff_toNat_le, ← UInt8.toNat_inj] at *
  omega

theorem isDigit_of_isSpace {b : UInt8} (h : isSpace b = true) : isDigit b = false := by
  simp [isDigit, isSpace, UInt8.le_iff_toNat_le, ← UInt8.toNat_inj] at *
  omega

theorem Ends.isDigit {s : Bytes} (h : Ends s) : Stops isDigit s :=
  h.mono fun b hb => isDigit_of_isSpace (by simpa using hb)

theorem decimal_solid (n : Nat) : Solid (decimal n) :=
  fun b hb => isSpace_of_isDigit (decimal_digits n b hb)

end Bytes

end ComputerMonitor
