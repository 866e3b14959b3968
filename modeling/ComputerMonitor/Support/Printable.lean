import ComputerMonitor.Support.JsonText

/-! What the compact form of JSON is made of. -/

namespace ComputerMonitor

open Bytes

namespace Json

/-- Well-formed text without control characters: all on one line and without a NUL. -/
structure Printable (s : Bytes) : Prop where
  utf8 : Utf8 s
  graphic : ∀ b ∈ s, 0x20 ≤ b

theorem Printable.append {s t : Bytes} (hs : Printable s) (ht : Printable t) :
    Printable (s ++ t) := by
  refine ⟨hs.utf8.append ht.utf8, fun b hb => ?_⟩
  rcases List.mem_append.mp hb with hb | hb
  · exact hs.graphic b hb
  · exact ht.graphic b hb

theorem printable_of_ascii {s : Bytes} (h : (s.all fun b => 0x20 ≤ b && b ≤ 0x7f) = true) :
    Printable s := by
  simp only [List.all_eq_true, Bool.and_eq_true, decide_eq_true_eq] at h
  exact ⟨Utf8.utf8_of_accepts s (Utf8.accepts_ascii fun b hb => (h b hb).2), fun b hb => (h b hb).1⟩

theorem isNumberByte_bounds {b : UInt8} (h : JsonTree.isNumberByte b = true) :
    (0x20 ≤ b && b ≤ 0x7f) = true := by
  revert b
  decide +kernel

theorem printable_number {s : Bytes} (h : ∀ b ∈ s, JsonTree.isNumberByte b = true) : Printable s :=
  printable_of_ascii (List.all_eq_true.mpr fun b hb => isNumberByte_bounds (h b hb))

theorem utf8_escaped {s : Bytes} (h : Utf8 s) : Utf8 (s.flatMap escapeByte) := by
  have htail : ∀ {b : UInt8}, IsTail b → escapeByte b = [b] := fun hb => escapeByte_of_le hb.1
  have hlead3 : ∀ {a b : UInt8}, IsLead3 a b → 0x80 ≤ a ∧ 0x80 ≤ b := by
    rintro a b (⟨rfl, hb, -⟩ | ⟨ha, -, hb, -⟩ | ⟨rfl, hb, -⟩ | ⟨ha, -, hb, -⟩)
    · exact ⟨by decide, UInt8.le_trans (by decide) hb⟩
    · exact ⟨UInt8.le_trans (by decide) ha, hb⟩
    · exact ⟨by decide, hb⟩
    · exact ⟨UInt8.le_trans (by decide) ha, hb⟩
  have hlead4 : ∀ {a b : UInt8}, IsLead4 a b → 0x80 ≤ a ∧ 0x80 ≤ b := by
    rintro a b (⟨rfl, hb, -⟩ | ⟨ha, -, hb, -⟩ | ⟨rfl, hb, -⟩)
    · exact ⟨by decide, UInt8.le_trans (by decide) hb⟩
    · exact ⟨UInt8.le_trans (by decide) ha, hb⟩
    · exact ⟨by decide, hb⟩
  induction h with
  | nil => exact .nil
  | @one a s ha _ ih =>
    have hascii := (escape_escapeByte a).2
    have hlow : ¬0x80 ≤ a := fun h => absurd (UInt8.le_trans h ha) (by decide)
    simp only [List.all_eq_true, Bool.and_eq_true, Bool.or_eq_true, decide_eq_true_eq, hlow,
      or_false] at hascii
    rw [List.flatMap_cons]
    exact (Utf8.utf8_of_accepts _ (Utf8.accepts_ascii fun b hb => (hascii b hb).2)).append ih
  | two ha ha' hb _ ih =>
    rw [List.flatMap_cons, List.flatMap_cons, escapeByte_of_le (UInt8.le_trans (by decide) ha),
      htail hb]
    exact .two ha ha' hb ih
  | three hab hc _ ih =>
    rw [List.flatMap_cons, List.flatMap_cons, List.flatMap_cons, escapeByte_of_le (hlead3 hab).1,
      escapeByte_of_le (hlead3 hab).2, htail hc]
    exact .three hab hc ih
  | four hab hc hd _ ih =>
    rw [List.flatMap_cons, List.flatMap_cons, List.flatMap_cons, List.flatMap_cons,
      escapeByte_of_le (hlead4 hab).1, escapeByte_of_le (hlead4 hab).2, htail hc, htail hd]
    exact .four hab hc hd ih

theorem printable_quote {s k : Bytes} (h : dumpEscaped s = some k) : Printable (quote k) := by
  have hvalid : Utf8 s := (isSome_dumpEscaped s).mp (by simp [h])
  rw [dumpEscaped_eq hvalid, Option.some.injEq] at h
  subst h
  have hgraphic : ∀ b ∈ s.flatMap escapeByte, 0x20 ≤ b := by
    intro b hb
    obtain ⟨c, -, hbc⟩ := List.mem_flatMap.mp hb
    have hall := List.all_eq_true.mp (escape_escapeByte c).2 b hbc
    simp only [Bool.and_eq_true, decide_eq_true_eq] at hall
    exact hall.1
  have hmark : Printable [0x22] := printable_of_ascii (by decide)
  exact hmark.append (Printable.append ⟨utf8_escaped hvalid, hgraphic⟩ hmark)

theorem printable_commas {ts : List Bytes} (h : ∀ t ∈ ts, Printable t) : Printable (commas ts) := by
  induction ts with
  | nil => exact printable_of_ascii (by decide)
  | cons t ts ih =>
    have ht : Printable t := h t (by simp)
    rw [commas_cons]
    split_ifs
    · exact ht
    · exact ht.append (Printable.append (t := commas ts) (s := [0x2c])
        (printable_of_ascii (by decide)) (ih fun u hu => h u (by simp [hu])))

mutual

/-- `dump` writes well-formed text on one line, whatever bytes are in the strings. -/
theorem printable_dump {fmt : FloatFormat} (hfmt : fmt.Numeric) :
    ∀ (j : Json) {t : Bytes}, dump fmt j = some t → Printable t
  | .null, t, ht => by
    cases ht
    exact printable_of_ascii (by decide)
  | .boolean b, t, ht => by
    cases ht
    cases b <;> exact printable_of_ascii (by decide)
  | .numberInteger i, t, ht => by
    cases ht
    have hdigits : Printable (decimal i.natAbs) :=
      printable_number fun b hb => isNumberByte_of_isDigit (decimal_digits _ b hb)
    rw [dumpInteger]
    split_ifs
    · exact Printable.append (printable_of_ascii (by decide)) hdigits
    · exact hdigits
  | .numberUnsigned n, t, ht => by
    cases ht
    exact printable_number fun b hb => isNumberByte_of_isDigit (decimal_digits n b hb)
  | .numberFloat x, t, ht => by
    cases ht
    have hnull : Printable (ascii "null") := printable_of_ascii (by decide)
    cases x with
    | finite q => exact printable_number (hfmt q)
    | inf s => exact hnull
    | nan => exact hnull
  | .string s, t, ht => by
    obtain ⟨k, hk, rfl⟩ := Option.map_eq_some_iff.mp ht
    exact printable_quote hk
  | .array elements, t, ht => by
    obtain ⟨ts, hts, rfl⟩ := Option.map_eq_some_iff.mp ht
    have hcommas := printable_commas (printable_dumpElements hfmt elements hts)
    exact Printable.append (Printable.append (printable_of_ascii (by decide)) hcommas)
      (printable_of_ascii (by decide))
  | .object members, t, ht => by
    obtain ⟨ts, hts, rfl⟩ := Option.map_eq_some_iff.mp ht
    have hcommas := printable_commas (printable_dumpMembers hfmt members hts)
    exact Printable.append (Printable.append (printable_of_ascii (by decide)) hcommas)
      (printable_of_ascii (by decide))

theorem printable_dumpElements {fmt : FloatFormat} (hfmt : fmt.Numeric) :
    ∀ (js : List Json) {ts : List Bytes}, dumpElements fmt js = some ts → ∀ t ∈ ts, Printable t
  | [], ts, hts => by
    cases hts
    simp
  | j :: js, ts, hts => by
    simp only [dumpElements, Option.bind_eq_bind, Option.bind_eq_some_iff, Option.pure_def,
      Option.some.injEq] at hts
    obtain ⟨t, ht, us, hus, rfl⟩ := hts
    exact List.forall_mem_cons.mpr
      ⟨printable_dump hfmt j ht, printable_dumpElements hfmt js hus⟩

theorem printable_dumpMembers {fmt : FloatFormat} (hfmt : fmt.Numeric) :
    ∀ (ms : List (Bytes × Json)) {ts : List Bytes}, dumpMembers fmt ms = some ts →
      ∀ t ∈ ts, Printable t
  | [], ts, hts => by
    cases hts
    simp
  | m :: ms, ts, hts => by
    simp only [dumpMembers, Option.bind_eq_bind, Option.bind_eq_some_iff, Option.pure_def,
      Option.some.injEq] at hts
    obtain ⟨t, ht, us, hus, rfl⟩ := hts
    exact List.forall_mem_cons.mpr
      ⟨printable_dumpMember hfmt m ht, printable_dumpMembers hfmt ms hus⟩

theorem printable_dumpMember {fmt : FloatFormat} (hfmt : fmt.Numeric) :
    ∀ (m : Bytes × Json) {t : Bytes}, dumpMember fmt m = some t → Printable t
  | (key, value), t, ht => by
    simp only [dumpMember, Option.bind_eq_bind, Option.bind_eq_some_iff, Option.pure_def,
      Option.some.injEq] at ht
    obtain ⟨k, hk, v, hv, rfl⟩ := ht
    exact ((printable_quote hk).append (printable_of_ascii (by decide))).append
      (printable_dump hfmt value hv)

end

end Json

end ComputerMonitor
