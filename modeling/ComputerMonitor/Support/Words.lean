import ComputerMonitor.Support.Scan

/-! The words of a text.  `%s` takes them one after the other, and `%lf` looks at no more than the
first of them. -/

namespace ComputerMonitor.Scan

open Bytes

/-- What stands between the blanks. -/
def words (s : Bytes) : List Bytes := (s.splitOnP isSpace).filter (· ≠ [])

@[simp] theorem words_nil : words [] = [] := by simp [words]

theorem words_space {b : UInt8} (hb : isSpace b = true) (s : Bytes) : words (b :: s) = words s := by
  simp [words, List.splitOnP_cons_eq_if_modifyHead, hb]

theorem words_skipSpace (s : Bytes) : words (skipSpace s) = words s := by
  induction s with
  | nil => rfl
  | cons b s ih =>
    by_cases hb : isSpace b = true
    · rw [words_space hb, ← ih, skipSpace, skipSpace, List.dropWhile_cons_of_pos hb]
    · rw [skipSpace, List.dropWhile_cons_of_neg hb]

theorem words_append {w rest : Bytes} (hw : Solid w) (hne : w ≠ []) (hrest : Ends rest) :
    words (w ++ rest) = w :: words rest := by
  cases rest with
  | nil => simp [words, List.splitOnP_eq_singleton hw, hne]
  | cons b rest =>
    have hb : isSpace b = true := by simpa using hrest
    rw [words_space hb, words, List.splitOnP_append_cons_of_forall_mem hw b hb]
    simp [words, hne]

theorem words_of_readWord {s w t : Bytes} (h : readWord s = some (w, t)) :
    words s = w :: words t := by
  obtain ⟨hne, hsolid, hskip, hends⟩ := readWord_eq_some h
  rw [← words_skipSpace, hskip, words_append hsolid hne hends]

/-- No word is left exactly when there are only blanks. -/
theorem readWord_eq_none_iff {s : Bytes} : readWord s = none ↔ skipSpace s = [] := by
  rw [readWord]
  cases hs : skipSpace s with
  | nil => simp
  | cons b t =>
    have hb : isSpace b = false := by
      have hstops := stops_dropWhile isSpace s
      rw [show s.dropWhile isSpace = b :: t from hs] at hstops
      simpa using hstops
    simp [hb]

theorem words_of_readWord_none {s : Bytes} (h : readWord s = none) : words s = [] := by
  rw [← words_skipSpace, readWord_eq_none_iff.mp h, words_nil]

/-! ### Numbers -/

/-- What is behind a blank. -/
def leave {α : Type*} (rest : Bytes) (p : α × Bytes) : α × Bytes := (p.1, p.2 ++ rest)

theorem takeWhile_append_stops {p : UInt8 → Bool} {rest : Bytes} (h : Stops p rest) (s : Bytes) :
    (s ++ rest).takeWhile p = s.takeWhile p := by
  induction s with
  | nil => exact h.takeWhile
  | cons b s ih =>
    rw [List.cons_append, List.takeWhile_cons, List.takeWhile_cons, ih]

theorem dropWhile_append_stops {p : UInt8 → Bool} {rest : Bytes} (h : Stops p rest) (s : Bytes) :
    (s ++ rest).dropWhile p = s.dropWhile p ++ rest := by
  induction s with
  | nil => exact h.dropWhile
  | cons b s ih =>
    rw [List.cons_append, List.dropWhile_cons, List.dropWhile_cons, ih]
    split_ifs <;> rfl

variable {rest : Bytes}

theorem ne_of_ends {b c : UInt8} (hrest : Ends (b :: rest)) (hc : isSpace c = false) : b ≠ c := by
  rintro rfl
  simp [hc] at hrest

theorem isSpace_of_ends {b : UInt8} (hrest : Ends (b :: rest)) : isSpace b = true := by
  simpa using hrest

theorem readSign_append (hrest : Ends rest) (s : Bytes) :
    readSign (s ++ rest) = leave rest (readSign s) := by
  cases s with
  | nil =>
    cases rest with
    | nil => rfl
    | cons b rest =>
      have hminus := ne_of_ends hrest (by decide : isSpace 0x2d = false)
      have hplus := ne_of_ends hrest (by decide : isSpace 0x2b = false)
      simp [readSign, leave, hminus, hplus]
  | cons b s =>
    rw [List.cons_append, readSign, readSign]
    split_ifs <;> rfl

theorem startsWith_append (hrest : Ends rest) {word : Bytes} (hword : Solid word) (s : Bytes) :
    startsWith word (s ++ rest) = startsWith word s := by
  rw [startsWith, startsWith, List.map_append]
  generalize s.map lower = l
  induction word generalizing l with
  | nil => simp
  | cons c word ih =>
    cases l with
    | nil =>
      cases rest with
      | nil => rfl
      | cons b rest =>
        have hne : c ≠ b := (ne_of_ends hrest (hword c (by simp))).symm
        simp [List.isPrefixOf, lower_of_isSpace (isSpace_of_ends hrest), hne]
    | cons d l =>
      rw [List.cons_append, List.isPrefixOf_cons_cons, List.isPrefixOf_cons_cons,
        ih fun b hb => hword b (by simp [hb])]

theorem drop_append_of_startsWith {word s : Bytes} (h : startsWith word s = true) :
    (s ++ rest).drop word.length = s.drop word.length ++ rest := by
  have hle : word.length ≤ s.length := by
    simpa using (List.isPrefixOf_iff_prefix.mp h).length_le
  exact List.drop_append_of_le_length hle

theorem readFraction_append (hrest : Ends rest) {digit : UInt8 → Bool} (hdigit : Stops digit rest)
    (s : Bytes) : readFraction digit (s ++ rest) = leave rest (readFraction digit s) := by
  cases s with
  | nil =>
    cases rest with
    | nil => rfl
    | cons b rest =>
      have hpoint := ne_of_ends hrest (by decide : isSpace 0x2e = false)
      simp [readFraction, leave, hpoint]
  | cons b s =>
    rw [List.cons_append, readFraction, readFraction, takeWhile_append_stops hdigit,
      dropWhile_append_stops hdigit]
    split_ifs <;> rfl

theorem readExponent_append (hrest : Ends rest) {letter : UInt8} (hletter : isSpace letter = false)
    (s : Bytes) : readExponent letter (s ++ rest) = (readExponent letter s).map (leave rest) := by
  cases s with
  | nil =>
    cases rest with
    | nil => rfl
    | cons b rest =>
      have hne := ne_of_ends hrest hletter
      simp [readExponent, leave, lower_of_isSpace (isSpace_of_ends hrest), hne]
  | cons b s =>
    simp only [List.cons_append, readExponent, readSign_append hrest s, leave,
      takeWhile_append_stops hrest.isDigit, dropWhile_append_stops hrest.isDigit]
    split_ifs <;> rfl

theorem readMantissa_append (hrest : Ends rest) (base : ℕ) {digit : UInt8 → Bool}
    (hdigit : Stops digit rest) (expBase : ℚ) {letter : UInt8} (hletter : isSpace letter = false)
    (s : Bytes) : readMantissa base digit expBase letter (s ++ rest) =
      (readMantissa base digit expBase letter s).map (leave rest) := by
  simp only [readMantissa, takeWhile_append_stops hdigit, dropWhile_append_stops hdigit,
    readFraction_append hrest hdigit, leave, readExponent_append hrest hletter]
  split_ifs
  · rfl
  · rw [Option.map_map, Option.map_map]
    rfl

theorem isHexDigit_of_isSpace {b : UInt8} (h : isSpace b = true) : isHexDigit b = false := by
  have hlt : ¬0x61 ≤ b := by
    simp [isSpace, UInt8.le_iff_toNat_le, ← UInt8.toNat_inj] at h ⊢
    omega
  simp [isHexDigit, isDigit_of_isSpace h, lower_of_isSpace h, hlt]

theorem readMagnitude_append (hrest : Ends rest) (s : Bytes) :
    readMagnitude (s ++ rest) = (readMagnitude s).map (leave rest) := by
  have hhex : Stops isHexDigit rest :=
    hrest.mono fun b hb => isHexDigit_of_isSpace (by simpa using hb)
  simp only [readMagnitude, startsWith_append hrest (by decide : Solid (ascii "infinity")),
    startsWith_append hrest (by decide : Solid (ascii "infi")),
    startsWith_append hrest (by decide : Solid (ascii "inf")),
    startsWith_append hrest (by decide : Solid (ascii "nan")),
    startsWith_append hrest (by decide : Solid (ascii "0x"))]
  split_ifs with hinfinity hinfi hinf hnan hx
  · exact congrArg (fun t => some (_, t)) (drop_append_of_startsWith hinfinity)
  · rfl
  · exact congrArg (fun t => some (_, t)) (drop_append_of_startsWith hinf)
  · exact congrArg (fun t => some (_, t)) (drop_append_of_startsWith hnan)
  · have hdrop : (s ++ rest).drop 2 = s.drop 2 ++ rest := drop_append_of_startsWith hx
    rw [hdrop, readMantissa_append hrest 16 hhex 2 (by decide), Option.map_map, Option.map_map]
    rfl
  · rw [readMantissa_append hrest 10 hrest.isDigit 10 (by decide), Option.map_map, Option.map_map]
    rfl

/-- A number is read from the first word alone. -/
theorem readDouble_append (hrest : Ends rest) {w : Bytes} (hw : Solid w) (hne : w ≠ []) :
    readDouble (w ++ rest) = (readDouble w).map (leave rest) := by
  have hskip : ∀ t, skipSpace (w ++ t) = w ++ t := fun t => skipSpace_blank .nil (hw.stops hne)
  have hskip' := hskip []
  rw [List.append_nil] at hskip'
  rw [readDouble, readDouble, hskip, hskip', readSign_append hrest]
  simp only [leave, readMagnitude_append hrest, Option.map_map]
  rfl

/-- The whole word is a number. -/
def IsNumber (w : Bytes) : Prop := ∃ x, readDouble w = some (x, [])

theorem readDouble_of_readWord {s w t : Bytes} (h : readWord s = some (w, t)) :
    readDouble s = (readDouble w).map (leave t) := by
  obtain ⟨hne, hsolid, hskip, hends⟩ := readWord_eq_some h
  have hword : skipSpace (w ++ t) = w ++ t := skipSpace_blank .nil (hsolid.stops hne)
  have hdouble : readDouble s = readDouble (w ++ t) := by
    rw [readDouble, readDouble, hskip, hword]
  rw [hdouble, readDouble_append hends hsolid hne]

/-- What a number leaves of its word is the next word. -/
def remainder (rest : Bytes) (ws : List Bytes) : List Bytes := if rest = [] then ws else rest :: ws

theorem words_remainder {s w t u : Bytes} {x : Double} (h : readWord s = some (w, t))
    (hw : readDouble w = some (x, u)) : words (u ++ t) = remainder u (words t) := by
  obtain ⟨-, hsolid, -, hends⟩ := readWord_eq_some h
  rw [remainder]
  split_ifs with hu
  · rw [hu, List.nil_append]
  · exact words_append (fun b hb => hsolid b ((readDouble_suffix hw).subset hb)) hu hends

theorem readDouble_of_readWord_none {s : Bytes} (h : readWord s = none) : readDouble s = none := by
  rw [readDouble, readWord_eq_none_iff.mp h]
  decide

end ComputerMonitor.Scan
