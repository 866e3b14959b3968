import ComputerMonitor.Support.Bytes

/-! UTF-8: the grammar of well-formed byte sequences, and the automaton with which nlohmann's
serializer checks and escapes strings. -/

namespace ComputerMonitor

open Bytes

/-- A continuation byte. -/
def IsTail (b : UInt8) : Prop := 0x80 ≤ b ∧ b ≤ 0xbf

instance (b : UInt8) : Decidable (IsTail b) := inferInstanceAs (Decidable (_ ∧ _))

/-- The first two bytes of a three-byte sequence: no overlong form and no surrogate. -/
def IsLead3 (a b : UInt8) : Prop :=
  a = 0xe0 ∧ 0xa0 ≤ b ∧ b ≤ 0xbf ∨ 0xe1 ≤ a ∧ a ≤ 0xec ∧ IsTail b ∨
    a = 0xed ∧ 0x80 ≤ b ∧ b ≤ 0x9f ∨ 0xee ≤ a ∧ a ≤ 0xef ∧ IsTail b

/-- The first two bytes of a four-byte sequence: no overlong form and nothing past U+10FFFF. -/
def IsLead4 (a b : UInt8) : Prop :=
  a = 0xf0 ∧ 0x90 ≤ b ∧ b ≤ 0xbf ∨ 0xf1 ≤ a ∧ a ≤ 0xf3 ∧ IsTail b ∨
    a = 0xf4 ∧ 0x80 ≤ b ∧ b ≤ 0x8f

/-- Well-formed UTF-8. -/
inductive Utf8 : Bytes → Prop
  | nil : Utf8 []
  | one {a s} : a ≤ 0x7f → Utf8 s → Utf8 (a :: s)
  | two {a b s} : 0xc2 ≤ a → a ≤ 0xdf → IsTail b → Utf8 s → Utf8 (a :: b :: s)
  | three {a b c s} : IsLead3 a b → IsTail c → Utf8 s → Utf8 (a :: b :: c :: s)
  | four {a b c d s} : IsLead4 a b → IsTail c → IsTail d → Utf8 s → Utf8 (a :: b :: c :: d :: s)

namespace Utf8

/-- The classes of bytes and the transitions of `serializer::decode`. -/
def utf8d : List UInt8 :=
  [0, 0, 0, 0, 0, 0, 0, 0, 0, 0, 0, 0, 0, 0, 0, 0, 0, 0, 0, 0, 0, 0, 0, 0, 0, 0, 0, 0, 0, 0, 0, 0,
    0, 0, 0, 0, 0, 0, 0, 0, 0, 0, 0, 0, 0, 0, 0, 0, 0, 0, 0, 0, 0, 0, 0, 0, 0, 0, 0, 0, 0, 0, 0, 0,
    0, 0, 0, 0, 0, 0, 0, 0, 0, 0, 0, 0, 0, 0, 0, 0, 0, 0, 0, 0, 0, 0, 0, 0, 0, 0, 0, 0, 0, 0, 0, 0,
    0, 0, 0, 0, 0, 0, 0, 0, 0, 0, 0, 0, 0, 0, 0, 0, 0, 0, 0, 0, 0, 0, 0, 0, 0, 0, 0, 0, 0, 0, 0, 0,
    1, 1, 1, 1, 1, 1, 1, 1, 1, 1, 1, 1, 1, 1, 1, 1, 9, 9, 9, 9, 9, 9, 9, 9, 9, 9, 9, 9, 9, 9, 9, 9,
    7, 7, 7, 7, 7, 7, 7, 7, 7, 7, 7, 7, 7, 7, 7, 7, 7, 7, 7, 7, 7, 7, 7, 7, 7, 7, 7, 7, 7, 7, 7, 7,
    8, 8, 2, 2, 2, 2, 2, 2, 2, 2, 2, 2, 2, 2, 2, 2, 2, 2, 2, 2, 2, 2, 2, 2, 2, 2, 2, 2, 2, 2, 2, 2,
    0xA, 0x3, 0x3, 0x3, 0x3, 0x3, 0x3, 0x3, 0x3, 0x3, 0x3, 0x3, 0x3, 0x4, 0x3, 0x3,
    0xB, 0x6, 0x6, 0x6, 0x5, 0x8, 0x8, 0x8, 0x8, 0x8, 0x8, 0x8, 0x8, 0x8, 0x8, 0x8,
    0x0, 0x1, 0x2, 0x3, 0x5, 0x8, 0x7, 0x1, 0x1, 0x1, 0x4, 0x6, 0x1, 0x1, 0x1, 0x1,
    1, 1, 1, 1, 1, 1, 1, 1, 1, 1, 1, 1, 1, 1, 1, 1, 1, 0, 1, 1, 1, 1, 1, 0, 1, 0, 1, 1, 1, 1, 1, 1,
    1, 2, 1, 1, 1, 1, 1, 2, 1, 2, 1, 1, 1, 1, 1, 1, 1, 1, 1, 1, 1, 1, 1, 2, 1, 1, 1, 1, 1, 1, 1, 1,
    1, 2, 1, 1, 1, 1, 1, 1, 1, 2, 1, 1, 1, 1, 1, 1, 1, 1, 1, 1, 1, 1, 1, 3, 1, 3, 1, 1, 1, 1, 1, 1,
    1, 3, 1, 1, 1, 1, 1, 3, 1, 3, 1, 1, 1, 1, 1, 1, 1, 3, 1, 1, 1, 1, 1, 1, 1, 1, 1, 1, 1, 1, 1, 1]

def byteType (byte : UInt8) : UInt8 := utf8d.getD byte.toNat 0

def accept : UInt8 := 0

def reject : UInt8 := 1

/-- The next state of `serializer::decode`. -/
def next (state byte : UInt8) : UInt8 :=
  utf8d.getD (256 + state.toNat * 16 + (byteType byte).toNat) 0

/-- The code point so far. -/
def codepoint (state : UInt8) (codep : UInt32) (byte : UInt8) : UInt32 :=
  if state ≠ accept then (byte.toUInt32 &&& 0x3f) ||| (codep <<< (6 : UInt32))
  else ((0xff : UInt32) >>> (byteType byte).toUInt32) &&& byte.toUInt32

def Accepts (s : Bytes) : Prop := s.foldl next accept = accept

instance (s : Bytes) : Decidable (Accepts s) := inferInstanceAs (Decidable (_ = _))

/-! ### The transitions -/

/-- The class of a byte, by its range. -/
def classOf (a : UInt8) : UInt8 :=
  if a ≤ 0x7f then 0 else if a ≤ 0x8f then 1 else if a ≤ 0x9f then 9 else if a ≤ 0xbf then 7
  else if a ≤ 0xc1 then 8 else if a ≤ 0xdf then 2 else if a = 0xe0 then 10 else if a = 0xed then 4
  else if a ≤ 0xef then 3 else if a = 0xf0 then 11 else if a ≤ 0xf3 then 6
  else if a = 0xf4 then 5 else 8

theorem utf8d_classes : utf8d.length = 400 ∧
    (utf8d.zipIdx.all fun p => 256 ≤ p.2 || p.1 == classOf (UInt8.ofNat p.2)) = true := by
  decide +kernel

theorem byteType_eq (a : UInt8) : byteType a = classOf a := by
  have hlt : a.toNat < utf8d.length := by
    have := a.toNat_lt
    rw [utf8d_classes.1]
    omega
  have hmem : (utf8d[a.toNat], a.toNat) ∈ utf8d.zipIdx := by
    rw [List.mem_zipIdx_iff_getElem?]
    exact List.getElem?_eq_getElem hlt
  have hclass := List.all_eq_true.mp utf8d_classes.2 _ hmem
  have hsmall : ¬256 ≤ a.toNat := by
    have := a.toNat_lt
    omega
  rw [byteType, List.getD_eq_getElem?_getD, List.getElem?_eq_getElem hlt]
  simpa [hsmall] using hclass

/-- The row of the state before a sequence. -/
def lead (b : UInt8) : UInt8 := [0, 1, 2, 3, 5, 8, 7, 1, 1, 1, 4, 6].getD (classOf b).toNat 0

/-- What the rows of the table hold for the class of a byte. -/
theorem rows (b : UInt8) :
    classOf b < 12 ∧
    ((lead b = 0 ↔ b ≤ 0x7f) ∧ (lead b = 2 ↔ 0xc2 ≤ b ∧ b ≤ 0xdf) ∧
      (lead b = 3 ↔ 0xe1 ≤ b ∧ b ≤ 0xec ∨ 0xee ≤ b ∧ b ≤ 0xef) ∧ (lead b = 4 ↔ b = 0xe0) ∧
      (lead b = 5 ↔ b = 0xed) ∧ (lead b = 6 ↔ b = 0xf0) ∧
      (lead b = 7 ↔ 0xf1 ≤ b ∧ b ≤ 0xf3) ∧ (lead b = 8 ↔ b = 0xf4) ∧ lead b ≤ 8) ∧
    [1, 1, 1, 1, 1, 1, 1, 1, 1, 1, 1, 1].getD (classOf b).toNat (0 : UInt8) = 1 ∧
    [1, 0, 1, 1, 1, 1, 1, 0, 1, 0, 1, 1].getD (classOf b).toNat (0 : UInt8) =
      (if IsTail b then 0 else 1) ∧
    [1, 2, 1, 1, 1, 1, 1, 2, 1, 2, 1, 1].getD (classOf b).toNat (0 : UInt8) =
      (if IsTail b then 2 else 1) ∧
    [1, 1, 1, 1, 1, 1, 1, 2, 1, 1, 1, 1].getD (classOf b).toNat (0 : UInt8) =
      (if 0xa0 ≤ b ∧ b ≤ 0xbf then 2 else 1) ∧
    [1, 2, 1, 1, 1, 1, 1, 1, 1, 2, 1, 1].getD (classOf b).toNat (0 : UInt8) =
      (if 0x80 ≤ b ∧ b ≤ 0x9f then 2 else 1) ∧
    [1, 1, 1, 1, 1, 1, 1, 3, 1, 3, 1, 1].getD (classOf b).toNat (0 : UInt8) =
      (if 0x90 ≤ b ∧ b ≤ 0xbf then 3 else 1) ∧
    [1, 3, 1, 1, 1, 1, 1, 3, 1, 3, 1, 1].getD (classOf b).toNat (0 : UInt8) =
      (if IsTail b then 3 else 1) ∧
    [1, 3, 1, 1, 1, 1, 1, 1, 1, 1, 1, 1].getD (classOf b).toNat (0 : UInt8) =
      (if 0x80 ≤ b ∧ b ≤ 0x8f then 3 else 1) := by
  revert b
  decide +kernel

/-- A state's row of the table holds its transitions. -/
theorem next_eq (state : UInt8) (row : List UInt8)
    (h : (utf8d.drop (256 + state.toNat * 16)).take 12 = row) (b : UInt8) :
    next state b = row.getD (classOf b).toNat 0 := by
  have hb : (classOf b).toNat < 12 := (rows b).1
  rw [next, byteType_eq, ← h]
  simp [List.getD_eq_getElem?_getD, hb]

/-- The lead bytes, by the state they lead to. -/
theorem next_accept_iff (a : UInt8) :
    (next 0 a = 0 ↔ a ≤ 0x7f) ∧ (next 0 a = 2 ↔ 0xc2 ≤ a ∧ a ≤ 0xdf) ∧
    (next 0 a = 3 ↔ 0xe1 ≤ a ∧ a ≤ 0xec ∨ 0xee ≤ a ∧ a ≤ 0xef) ∧ (next 0 a = 4 ↔ a = 0xe0) ∧
    (next 0 a = 5 ↔ a = 0xed) ∧ (next 0 a = 6 ↔ a = 0xf0) ∧
    (next 0 a = 7 ↔ 0xf1 ≤ a ∧ a ≤ 0xf3) ∧ (next 0 a = 8 ↔ a = 0xf4) ∧ next 0 a ≤ 8 := by
  rw [next_eq 0 [0, 1, 2, 3, 5, 8, 7, 1, 1, 1, 4, 6] rfl]
  exact (rows a).2.1

theorem next_reject (a : UInt8) : next 1 a = 1 := by
  rw [next_eq 1 _ rfl]
  exact (rows a).2.2.1

theorem next_two (b : UInt8) : next 2 b = if IsTail b then 0 else 1 := by
  rw [next_eq 2 _ rfl]
  exact (rows b).2.2.2.1

theorem next_three (b : UInt8) : next 3 b = if IsTail b then 2 else 1 := by
  rw [next_eq 3 _ rfl]
  exact (rows b).2.2.2.2.1

theorem next_four (b : UInt8) : next 4 b = if 0xa0 ≤ b ∧ b ≤ 0xbf then 2 else 1 := by
  rw [next_eq 4 _ rfl]
  exact (rows b).2.2.2.2.2.1

theorem next_five (b : UInt8) : next 5 b = if 0x80 ≤ b ∧ b ≤ 0x9f then 2 else 1 := by
  rw [next_eq 5 _ rfl]
  exact (rows b).2.2.2.2.2.2.1

theorem next_six (b : UInt8) : next 6 b = if 0x90 ≤ b ∧ b ≤ 0xbf then 3 else 1 := by
  rw [next_eq 6 _ rfl]
  exact (rows b).2.2.2.2.2.2.2.1

theorem next_seven (b : UInt8) : next 7 b = if IsTail b then 3 else 1 := by
  rw [next_eq 7 _ rfl]
  exact (rows b).2.2.2.2.2.2.2.2.1

theorem next_eight (b : UInt8) : next 8 b = if 0x80 ≤ b ∧ b ≤ 0x8f then 3 else 1 := by
  rw [next_eq 8 _ rfl]
  exact (rows b).2.2.2.2.2.2.2.2.2

theorem foldl_reject (s : Bytes) : s.foldl next 1 = 1 := by
  induction s with
  | nil => rfl
  | cons a s ih => rw [List.foldl_cons, next_reject, ih]

/-- A state that leads to `t` on some bytes and to rejection on all others. -/
theorem foldl_cons_accept {state t : UInt8} {p : UInt8 → Prop} [DecidablePred p]
    (hnext : ∀ b, next state b = if p b then t else 1) (hstate : state ≠ accept) (s : Bytes) :
    s.foldl next state = accept ↔ ∃ b u, s = b :: u ∧ p b ∧ u.foldl next t = accept := by
  cases s with
  | nil => simpa using hstate
  | cons b s =>
    rw [List.foldl_cons, hnext]
    split_ifs with h
    · simp [h]
    · simp [h, foldl_reject, accept]

theorem foldl_two_iff (s : Bytes) :
    s.foldl next 2 = accept ↔ ∃ b u, s = b :: u ∧ IsTail b ∧ Accepts u :=
  foldl_cons_accept next_two (by decide) s

theorem foldl_then_two {state : UInt8} {p : UInt8 → Prop} [DecidablePred p]
    (hnext : ∀ b, next state b = if p b then 2 else 1) (hstate : state ≠ accept) (s : Bytes) :
    s.foldl next state = accept ↔
      ∃ b c u, s = b :: c :: u ∧ p b ∧ IsTail c ∧ Accepts u := by
  rw [foldl_cons_accept hnext hstate]
  constructor
  · rintro ⟨b, u, rfl, hb, hu⟩
    obtain ⟨c, v, rfl, hc, hv⟩ := (foldl_two_iff u).mp hu
    exact ⟨b, c, v, rfl, hb, hc, hv⟩
  · rintro ⟨b, c, u, rfl, hb, hc, hu⟩
    exact ⟨b, c :: u, rfl, hb, (foldl_two_iff _).mpr ⟨c, u, rfl, hc, hu⟩⟩

theorem foldl_then_three {state : UInt8} {p : UInt8 → Prop} [DecidablePred p]
    (hnext : ∀ b, next state b = if p b then 3 else 1) (hstate : state ≠ accept) (s : Bytes) :
    s.foldl next state = accept ↔
      ∃ b c d u, s = b :: c :: d :: u ∧ p b ∧ IsTail c ∧ IsTail d ∧ Accepts u := by
  have hthree := foldl_then_two next_three (by decide)
  rw [foldl_cons_accept hnext hstate]
  constructor
  · rintro ⟨b, u, rfl, hb, hu⟩
    obtain ⟨c, d, v, rfl, hc, hd, hv⟩ := (hthree u).mp hu
    exact ⟨b, c, d, v, rfl, hb, hc, hd, hv⟩
  · rintro ⟨b, c, d, u, rfl, hb, hc, hd, hu⟩
    exact ⟨b, c :: d :: u, rfl, hb, (hthree _).mpr ⟨c, d, u, rfl, hc, hd, hu⟩⟩

theorem accepts_cons (a : UInt8) (s : Bytes) :
    Accepts (a :: s) ↔ s.foldl next (next 0 a) = accept := Iff.rfl

theorem state_cases : ∀ t : UInt8, t ≤ 8 → t = 0 ∨ t = 1 ∨ t = 2 ∨ t = 3 ∨ t = 4 ∨ t = 5 ∨
    t = 6 ∨ t = 7 ∨ t = 8 := by
  intro t h
  simp [UInt8.le_iff_toNat_le, ← UInt8.toNat_inj] at *
  omega

/-- The first sequence of an accepted text. -/
theorem accepts_cons_cases {a : UInt8} {s : Bytes} (h : Accepts (a :: s)) :
    (a ≤ 0x7f ∧ Accepts s) ∨
      (∃ b u, s = b :: u ∧ 0xc2 ≤ a ∧ a ≤ 0xdf ∧ IsTail b ∧ Accepts u) ∨
      (∃ b c u, s = b :: c :: u ∧ IsLead3 a b ∧ IsTail c ∧ Accepts u) ∨
      ∃ b c d u, s = b :: c :: d :: u ∧ IsLead4 a b ∧ IsTail c ∧ IsTail d ∧ Accepts u := by
  rw [accepts_cons] at h
  obtain ⟨h0, h2, h3, h4, h5, h6, h7, h8, hle⟩ := next_accept_iff a
  rcases state_cases _ hle with ht | ht | ht | ht | ht | ht | ht | ht | ht <;> rw [ht] at h
  · exact .inl ⟨h0.mp ht, h⟩
  · rw [foldl_reject] at h
    cases h
  · obtain ⟨b, u, rfl, hb, hu⟩ := (foldl_two_iff s).mp h
    exact .inr (.inl ⟨b, u, rfl, (h2.mp ht).1, (h2.mp ht).2, hb, hu⟩)
  · obtain ⟨b, c, u, rfl, hb, hc, hu⟩ := (foldl_then_two next_three (by decide) s).mp h
    refine .inr (.inr (.inl ⟨b, c, u, rfl, ?_, hc, hu⟩))
    rcases h3.mp ht with ⟨ha, ha'⟩ | ⟨ha, ha'⟩
    · exact .inr (.inl ⟨ha, ha', hb⟩)
    · exact .inr (.inr (.inr ⟨ha, ha', hb⟩))
  · obtain ⟨b, c, u, rfl, hb, hc, hu⟩ := (foldl_then_two next_four (by decide) s).mp h
    exact .inr (.inr (.inl ⟨b, c, u, rfl, .inl ⟨h4.mp ht, hb⟩, hc, hu⟩))
  · obtain ⟨b, c, u, rfl, hb, hc, hu⟩ := (foldl_then_two next_five (by decide) s).mp h
    exact .inr (.inr (.inl ⟨b, c, u, rfl, .inr (.inr (.inl ⟨h5.mp ht, hb⟩)), hc, hu⟩))
  · obtain ⟨b, c, d, u, rfl, hb, hc, hd, hu⟩ := (foldl_then_three next_six (by decide) s).mp h
    exact .inr (.inr (.inr ⟨b, c, d, u, rfl, .inl ⟨h6.mp ht, hb⟩, hc, hd, hu⟩))
  · obtain ⟨b, c, d, u, rfl, hb, hc, hd, hu⟩ := (foldl_then_three next_seven (by decide) s).mp h
    exact .inr (.inr (.inr ⟨b, c, d, u, rfl,
      .inr (.inl ⟨(h7.mp ht).1, (h7.mp ht).2, hb⟩), hc, hd, hu⟩))
  · obtain ⟨b, c, d, u, rfl, hb, hc, hd, hu⟩ := (foldl_then_three next_eight (by decide) s).mp h
    exact .inr (.inr (.inr ⟨b, c, d, u, rfl, .inr (.inr ⟨h8.mp ht, hb⟩), hc, hd, hu⟩))

/-- Whatever the automaton accepts is well-formed. -/
theorem utf8_of_accepts (s : Bytes) (h : Accepts s) : Utf8 s := by
  induction hn : s.length using Nat.strong_induction_on generalizing s with
  | _ n ih =>
    subst hn
    cases s with
    | nil => exact .nil
    | cons a s =>
      rcases accepts_cons_cases h with ⟨ha, hs⟩ | ⟨b, u, rfl, ha, ha', hb, hu⟩ |
        ⟨b, c, u, rfl, hab, hc, hu⟩ | ⟨b, c, d, u, rfl, hab, hc, hd, hu⟩
      · exact .one ha (ih _ (by simp) s hs rfl)
      · exact .two ha ha' hb (ih _ (by simp) u hu rfl)
      · exact .three hab hc (ih _ (by simp; omega) u hu rfl)
      · exact .four hab hc hd (ih _ (by simp; omega) u hu rfl)

theorem accepts_of_utf8 {s : Bytes} (h : Utf8 s) : Accepts s := by
  induction h with
  | nil => rfl
  | @one a s ha _ ih => rwa [accepts_cons, (next_accept_iff a).1.mpr ha]
  | @two a b s ha ha' hb _ ih =>
    rw [accepts_cons, (next_accept_iff a).2.1.mpr ⟨ha, ha'⟩]
    exact (foldl_two_iff _).mpr ⟨b, s, rfl, hb, ih⟩
  | @three a b c s hab hc _ ih =>
    obtain ⟨-, -, h3, h4, h5, -⟩ := next_accept_iff a
    rw [accepts_cons]
    rcases hab with ⟨ha, hb⟩ | ⟨ha, ha', hb⟩ | ⟨ha, hb⟩ | ⟨ha, ha', hb⟩
    · rw [h4.mpr ha]
      exact (foldl_then_two next_four (by decide) _).mpr ⟨b, c, s, rfl, hb, hc, ih⟩
    · rw [h3.mpr (.inl ⟨ha, ha'⟩)]
      exact (foldl_then_two next_three (by decide) _).mpr ⟨b, c, s, rfl, hb, hc, ih⟩
    · rw [h5.mpr ha]
      exact (foldl_then_two next_five (by decide) _).mpr ⟨b, c, s, rfl, hb, hc, ih⟩
    · rw [h3.mpr (.inr ⟨ha, ha'⟩)]
      exact (foldl_then_two next_three (by decide) _).mpr ⟨b, c, s, rfl, hb, hc, ih⟩
  | @four a b c d s hab hc hd _ ih =>
    obtain ⟨-, -, -, -, -, h6, h7, h8, -⟩ := next_accept_iff a
    rw [accepts_cons]
    rcases hab with ⟨ha, hb⟩ | ⟨ha, ha', hb⟩ | ⟨ha, hb⟩
    · rw [h6.mpr ha]
      exact (foldl_then_three next_six (by decide) _).mpr ⟨b, c, d, s, rfl, hb, hc, hd, ih⟩
    · rw [h7.mpr ⟨ha, ha'⟩]
      exact (foldl_then_three next_seven (by decide) _).mpr ⟨b, c, d, s, rfl, hb, hc, hd, ih⟩
    · rw [h8.mpr ha]
      exact (foldl_then_three next_eight (by decide) _).mpr ⟨b, c, d, s, rfl, hb, hc, hd, ih⟩

/-- The automaton accepts well-formed UTF-8 and nothing else. -/
theorem accepts_iff (s : Bytes) : Accepts s ↔ Utf8 s := ⟨utf8_of_accepts s, accepts_of_utf8⟩

theorem append {s t : Bytes} (hs : Utf8 s) (ht : Utf8 t) : Utf8 (s ++ t) := by
  induction hs with
  | nil => exact ht
  | one ha _ ih => exact .one ha ih
  | two ha ha' hb _ ih => exact .two ha ha' hb ih
  | three hab hc _ ih => exact .three hab hc ih
  | four hab hc hd _ ih => exact .four hab hc hd ih

/-! ### Code points -/

/-- What a further byte makes of the code point. -/
theorem toNat_codepoint {state : UInt8} (hstate : state ≠ accept) {c : UInt32}
    (hc : c.toNat < 2 ^ 26) (b : UInt8) :
    (codepoint state c b).toNat = 64 * c.toNat + b.toNat % 64 := by
  have hlow : b.toNat % 64 < 2 ^ 6 := Nat.mod_lt _ (by decide)
  have hshift : c.toNat <<< 6 % 4294967296 = c.toNat <<< 6 := by
    rw [Nat.shiftLeft_eq]
    exact Nat.mod_eq_of_lt (by omega)
  have hmask : b.toNat &&& 63 = b.toNat % 64 := Nat.and_two_pow_sub_one_eq_mod _ 6
  rw [codepoint, if_pos hstate, UInt32.toNat_or, UInt32.toNat_and, UInt32.toNat_shiftLeft]
  simp only [UInt8.toNat_toUInt32, UInt32.toNat_ofNat]
  norm_num [hmask]
  rw [hshift, Nat.or_comm, ← Nat.shiftLeft_add_eq_or_of_lt hlow, Nat.shiftLeft_eq]
  omega

/-- What the first byte of a sequence has of the code point. -/
theorem lead_codepoint (c : UInt32) (a : UInt8) :
    (a ≤ 0x7f → codepoint accept c a = a.toUInt32) ∧
    (0xc2 ≤ a → (codepoint accept c a).toNat < 64) ∧
    (0xc2 ≤ a ∧ a ≤ 0xdf → 2 ≤ (codepoint accept c a).toNat) ∧
    (0xe1 ≤ a ∧ a ≤ 0xef ∨ 0xf1 ≤ a ∧ a ≤ 0xf4 → 1 ≤ (codepoint accept c a).toNat) := by
  rw [codepoint, if_neg (by decide), byteType_eq]
  revert a
  decide +kernel

/-- The states inside a sequence, by how large the code point is by then. -/
inductive Inside : UInt8 → ℕ → Prop
  | none {c : ℕ} : Inside 0 c
  | two {c : ℕ} : 2 ≤ c → c < 2 ^ 18 → Inside 2 c
  | three {c : ℕ} : 1 ≤ c → c < 2 ^ 12 → Inside 3 c
  | four {c : ℕ} : c < 2 ^ 6 → Inside 4 c
  | five {c : ℕ} : 1 ≤ c → c < 2 ^ 6 → Inside 5 c
  | six {c : ℕ} : c < 2 ^ 6 → Inside 6 c
  | seven {c : ℕ} : 1 ≤ c → c < 2 ^ 6 → Inside 7 c
  | eight {c : ℕ} : 1 ≤ c → c < 2 ^ 6 → Inside 8 c

theorem Inside.lt {state : UInt8} {c : ℕ} (h : Inside state c) (hstate : state ≠ accept) :
    c < 2 ^ 18 := by
  cases h with
  | none => exact absurd rfl hstate
  | two _ h => exact h
  | three _ h => exact h.trans (by decide)
  | four h | five _ h | six h | seven _ h | eight _ h => exact h.trans (by decide)

theorem inside_lead (c : UInt32) {a : UInt8} (h : next 0 a ≠ reject) :
    Inside (next 0 a) (codepoint accept c a).toNat := by
  obtain ⟨h0, h2, h3, h4, h5, h6, h7, h8, hle⟩ := next_accept_iff a
  obtain ⟨-, hlt, htwo, hone⟩ := lead_codepoint c a
  have hlow : ∀ lo : UInt8, 0xc2 ≤ lo → lo ≤ a → (codepoint accept c a).toNat < 2 ^ 6 :=
    fun lo hlo ha => hlt (UInt8.le_trans hlo ha)
  have heq : ∀ lo : UInt8, a = lo → lo ≤ a := fun _ ha => ha ▸ UInt8.le_refl _
  rcases state_cases _ hle with ht | ht | ht | ht | ht | ht | ht | ht | ht <;> rw [ht]
  · exact .none
  · exact absurd ht h
  · exact .two (htwo (h2.mp ht)) ((hlow _ (by decide) (h2.mp ht).1).trans (by decide))
  · rcases h3.mp ht with ⟨ha, ha'⟩ | ⟨ha, ha'⟩
    · exact .three (hone (.inl ⟨ha, UInt8.le_trans ha' (by decide)⟩))
        ((hlow _ (by decide) ha).trans (by decide))
    · exact .three (hone (.inl ⟨UInt8.le_trans (by decide) ha, ha'⟩))
        ((hlow _ (by decide) ha).trans (by decide))
  · exact .four (hlow _ (by decide) (heq _ (h4.mp ht)))
  · refine .five (hone (.inl ?_)) (hlow _ (by decide) (heq _ (h5.mp ht)))
    rw [h5.mp ht]
    decide
  · exact .six (hlow _ (by decide) (heq _ (h6.mp ht)))
  · exact .seven (hone (.inr ⟨(h7.mp ht).1, UInt8.le_trans (h7.mp ht).2 (by decide)⟩))
      (hlow _ (by decide) (h7.mp ht).1)
  · refine .eight (hone (.inr ?_)) (hlow _ (by decide) (heq _ (h8.mp ht)))
    rw [h8.mp ht]
    decide

/-- A byte inside a sequence is a continuation byte, and the code point grows with it. -/
theorem inside_next {state : UInt8} {c : UInt32} (h : Inside state c.toNat)
    (hstate : state ≠ accept) {b : UInt8} (hnext : next state b ≠ reject) :
    IsTail b ∧ Inside (next state b) (codepoint state c b).toNat ∧
      (next state b = accept → 2 ^ 7 ≤ (codepoint state c b).toNat) := by
  have hlt := h.lt hstate
  rw [toNat_codepoint hstate (hlt.trans (by decide))]
  have hmod : b.toNat % 64 < 64 := Nat.mod_lt _ (by decide)
  have hif : ∀ {p : Prop} [Decidable p] {t : UInt8}, (if p then t else 1) ≠ reject → p := by
    intro p _ t hne
    by_contra hp
    exact hne (if_neg hp)
  generalize hc : c.toNat = k at h
  cases h with
  | none => exact absurd rfl hstate
  | two hk hk' =>
    rw [next_two] at hnext ⊢
    rw [if_pos (hif hnext)]
    exact ⟨hif hnext, .none, fun _ => by omega⟩
  | three hk hk' =>
    rw [next_three] at hnext ⊢
    rw [if_pos (hif hnext)]
    exact ⟨hif hnext, .two (by omega) (by omega), by simp [accept]⟩
  | four hk' =>
    rw [next_four] at hnext ⊢
    obtain ⟨hb, hb'⟩ := hif hnext
    have hlow : 160 ≤ b.toNat := UInt8.le_iff_toNat_le.mp hb
    have hhigh : b.toNat ≤ 191 := UInt8.le_iff_toNat_le.mp hb'
    rw [if_pos ⟨hb, hb'⟩]
    exact ⟨⟨UInt8.le_trans (by decide) hb, hb'⟩, .two (by omega) (by omega), by simp [accept]⟩
  | five hk hk' =>
    rw [next_five] at hnext ⊢
    obtain ⟨hb, hb'⟩ := hif hnext
    rw [if_pos ⟨hb, hb'⟩]
    exact ⟨⟨hb, UInt8.le_trans hb' (by decide)⟩, .two (by omega) (by omega), by simp [accept]⟩
  | six hk' =>
    rw [next_six] at hnext ⊢
    obtain ⟨hb, hb'⟩ := hif hnext
    have hlow : 144 ≤ b.toNat := UInt8.le_iff_toNat_le.mp hb
    have hhigh : b.toNat ≤ 191 := UInt8.le_iff_toNat_le.mp hb'
    rw [if_pos ⟨hb, hb'⟩]
    exact ⟨⟨UInt8.le_trans (by decide) hb, hb'⟩, .three (by omega) (by omega), by simp [accept]⟩
  | seven hk hk' =>
    rw [next_seven] at hnext ⊢
    rw [if_pos (hif hnext)]
    exact ⟨hif hnext, .three (by omega) (by omega), by simp [accept]⟩
  | eight hk hk' =>
    rw [next_eight] at hnext ⊢
    obtain ⟨hb, hb'⟩ := hif hnext
    rw [if_pos ⟨hb, hb'⟩]
    exact ⟨⟨hb, UInt8.le_trans hb' (by decide)⟩, .three (by omega) (by omega), by simp [accept]⟩

/-! ### ASCII around a text -/

theorem next_ascii {state b : UInt8} (hstate : state ≤ 8) (hb : b ≤ 0x7f) :
    next state b = if state = 0 then 0 else 1 := by
  have hlow : ∀ lo : UInt8, 0x80 ≤ lo → ¬lo ≤ b := fun lo hlo h =>
    absurd (UInt8.le_trans (UInt8.le_trans hlo h) hb) (by decide)
  have hrange : ∀ lo hi : UInt8, 0x80 ≤ lo → ¬(lo ≤ b ∧ b ≤ hi) := fun lo _ hlo h =>
    hlow lo hlo h.1
  have htail : ¬IsTail b := hrange _ _ (by decide)
  rcases state_cases state hstate with rfl | rfl | rfl | rfl | rfl | rfl | rfl | rfl | rfl
  · rw [(next_accept_iff b).1.mpr hb, if_pos rfl]
  · exact next_reject b
  · rw [next_two, if_neg htail, if_neg (by decide)]
  · rw [next_three, if_neg htail, if_neg (by decide)]
  · rw [next_four, if_neg (hrange _ _ (by decide)), if_neg (by decide)]
  · rw [next_five, if_neg (hrange _ _ (by decide)), if_neg (by decide)]
  · rw [next_six, if_neg (hrange _ _ (by decide)), if_neg (by decide)]
  · rw [next_seven, if_neg htail, if_neg (by decide)]
  · rw [next_eight, if_neg (hrange _ _ (by decide)), if_neg (by decide)]

theorem next_le {state : UInt8} (hstate : state ≤ 8) (b : UInt8) : next state b ≤ 8 := by
  rcases state_cases state hstate with rfl | rfl | rfl | rfl | rfl | rfl | rfl | rfl | rfl
  · exact (next_accept_iff b).2.2.2.2.2.2.2.2
  · rw [next_reject]
    decide
  · rw [next_two]
    split_ifs <;> decide
  · rw [next_three]
    split_ifs <;> decide
  · rw [next_four]
    split_ifs <;> decide
  · rw [next_five]
    split_ifs <;> decide
  · rw [next_six]
    split_ifs <;> decide
  · rw [next_seven]
    split_ifs <;> decide
  · rw [next_eight]
    split_ifs <;> decide

theorem foldl_next_le {state : UInt8} (hstate : state ≤ 8) (s : Bytes) :
    s.foldl next state ≤ 8 := by
  induction s generalizing state with
  | nil => exact hstate
  | cons b s ih => exact ih (next_le hstate b)

/-- Nothing but ASCII. -/
def Ascii (s : Bytes) : Prop := ∀ b ∈ s, b ≤ 0x7f

instance (s : Bytes) : Decidable (Ascii s) := inferInstanceAs (Decidable (∀ b ∈ s, b ≤ 0x7f))

/-- ASCII leaves the state where a text may start and makes up for no missing byte. -/
theorem foldl_ascii {state : UInt8} (hstate : state ≤ 8) {s : Bytes} (hs : Ascii s) :
    s.foldl next state = accept ↔ state = accept := by
  induction s generalizing state with
  | nil => rfl
  | cons b s ih =>
    have hb : b ≤ 0x7f := hs b (by simp)
    rw [List.foldl_cons, ih (next_le hstate b) fun c hc => hs c (by simp [hc]),
      next_ascii hstate hb]
    split_ifs with h
    · simp [h, accept]
    · simp [h, accept]

theorem accepts_ascii {s : Bytes} (hs : Ascii s) : Accepts s :=
  (foldl_ascii (by decide) hs).mpr rfl

/-- ASCII before and behind a text does not matter. -/
theorem accepts_append_ascii {p s q : Bytes} (hp : Ascii p) (hq : Ascii q) :
    Accepts (p ++ s ++ q) ↔ Accepts s := by
  have hstart : p.foldl next accept = accept := accepts_ascii hp
  rw [Accepts, List.foldl_append, List.foldl_append, hstart,
    foldl_ascii (foldl_next_le (by decide) s) hq, Accepts]

end Utf8

end ComputerMonitor
