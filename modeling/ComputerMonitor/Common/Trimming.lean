import ComputerMonitor.Common

/-! What `string_trimmed` leaves of a string, and the two scans that find it. -/

namespace ComputerMonitor

open Bytes

namespace StringTrimmed

/-- `t` is `str` without the blanks at either end. -/
structure Trims (str t : Bytes) : Prop where
  parts : ∃ p q, str = p ++ t ++ q ∧ Blank p ∧ Blank q
  head : ∀ b ∈ t.head?, Bytes.isSpace b = false
  last : ∀ b ∈ t.getLast?, Bytes.isSpace b = false

theorem rdropWhile_append_blank (s : Bytes) {q : Bytes} (hq : Blank q) :
    (s ++ q).rdropWhile Bytes.isSpace = s.rdropWhile Bytes.isSpace := by
  have hrev : ∀ b ∈ q.reverse, Bytes.isSpace b = true := fun b hb => hq b (List.mem_reverse.mp hb)
  rw [List.rdropWhile, List.rdropWhile, List.reverse_append, List.dropWhile_append_of_pos hrev]

theorem rdropWhile_of_last {s : Bytes} (h : ∀ b ∈ s.getLast?, Bytes.isSpace b = false) :
    s.rdropWhile Bytes.isSpace = s := by
  rw [List.rdropWhile_eq_self_iff]
  intro hne
  rw [h _ (List.getLast?_eq_some_getLast hne)]
  simp

theorem Trims.eq {str t : Bytes} (h : Trims str t) : t = stringTrimmed str := by
  obtain ⟨p, q, rfl, hp, hq⟩ := h.parts
  rw [stringTrimmed_eq, rdropWhile_append_blank _ hq]
  by_cases ht : t = []
  · rw [ht, List.append_nil, List.rdropWhile_eq_nil_iff.mpr hp]
    rfl
  · have hlast : ∀ b ∈ (p ++ t).getLast?, Bytes.isSpace b = false := by
      intro b hb
      rw [List.getLast?_append_of_ne_nil _ ht] at hb
      exact h.last b hb
    rw [rdropWhile_of_last hlast, dropWhile_run hp h.head]

theorem last_rdropWhile (s : Bytes) :
    ∀ b ∈ (s.rdropWhile Bytes.isSpace).getLast?, Bytes.isSpace b = false := by
  intro b hb
  obtain ⟨hne, rfl⟩ := List.mem_getLast?_eq_getLast hb
  simpa using List.rdropWhile_last_not Bytes.isSpace s hne

theorem trims_stringTrimmed (str : Bytes) : Trims str (stringTrimmed str) where
  parts := exists_stringTrimmed str
  head := by
    rw [stringTrimmed_eq]
    exact stops_dropWhile _ _
  last := by
    rw [stringTrimmed_eq]
    intro b hb
    obtain ⟨front, hfront⟩ := List.dropWhile_suffix (l := str.rdropWhile Bytes.isSpace)
      Bytes.isSpace
    have hne : (str.rdropWhile Bytes.isSpace).dropWhile Bytes.isSpace ≠ [] := by
      intro hnil
      rw [hnil] at hb
      cases hb
    apply last_rdropWhile str
    rw [← hfront, List.getLast?_append_of_ne_nil _ hne]
    exact hb

theorem trims_iff (str t : Bytes) : Trims str t ↔ t = stringTrimmed str := by
  constructor
  · exact Trims.eq
  · rintro rfl
    exact trims_stringTrimmed str

theorem stringTrimmed_blank {str : Bytes} (h : Blank str) : stringTrimmed str = [] := by
  symm
  apply Trims.eq
  exact ⟨⟨str, [], by simp, h, .nil⟩, by simp, by simp⟩

theorem stringTrimmed_stringTrimmed (str : Bytes) :
    stringTrimmed (stringTrimmed str) = stringTrimmed str := by
  symm
  apply Trims.eq
  have h := trims_stringTrimmed str
  exact ⟨⟨[], [], by simp, .nil, .nil⟩, h.head, h.last⟩

/-- Between two bytes that are no blanks every byte stays where it is. -/
theorem exists_inner {u v : Bytes} (hu : ¬Blank u) (hv : ¬Blank v) (b : UInt8) :
    ∃ u' v', stringTrimmed (u ++ b :: v) = u' ++ b :: v' ∧ u' <:+ u ∧ v' <+: v := by
  obtain ⟨p, q, hparts, hp, hq⟩ := exists_stringTrimmed (u ++ b :: v)
  rw [List.append_assoc, List.append_eq_append_iff] at hparts
  rcases hparts with ⟨a, rfl, -⟩ | ⟨u', rfl, hrest⟩
  · exact absurd (fun c hc => hp c (by simp [hc])) hu
  · have hrest' : stringTrimmed (p ++ u' ++ b :: v) ++ q = u' ++ [b] ++ v := by
      rw [hrest, List.append_assoc, List.singleton_append]
    rcases List.append_eq_append_iff.mp hrest' with ⟨a, -, rfl⟩ | ⟨v', htrim, rfl⟩
    · exact absurd (fun c hc => hq c (by simp [hc])) hv
    · refine ⟨u', v', ?_, List.suffix_append p u', List.prefix_append v' q⟩
      rw [htrim, List.append_assoc, List.singleton_append]

/-! ### The scans -/

/-- The iterators have not passed each other and are inside the string. -/
structure Inside (str : Bytes) (s : ℕ × ℕ) : Prop where
  ordered : s.1 ≤ s.2
  inside : s.2 ≤ str.length

/-- From a pair of iterators a loop goes through pairs inside the string only, reads nothing outside
it, and ends. -/
def Scans (str : Bytes) (step : ℕ × ℕ → (ℕ × ℕ) ⊕ Option (ℕ × ℕ)) (s t : ℕ × ℕ) : Prop :=
  (∀ u, Loop.Goes step s u → Inside str u ∧ step u ≠ .inr none) ∧ Loop.Returns step s (some t)

theorem Inside.endStep {str : Bytes} {s : ℕ × ℕ} (h : Inside str s) :
    endStep str s = .inr (some s) ∨ ∃ t, endStep str s = .inl t ∧ Inside str t := by
  obtain ⟨first, last⟩ := s
  have hinside := h.inside
  cases last with
  | zero => exact .inl rfl
  | succ last =>
    rw [endStep_succ first hinside]
    split
    · rename_i hb
      exact .inr ⟨_, rfl, by dsimp only; omega, by dsimp only at *; omega⟩
    · exact .inl rfl

theorem Inside.beginStep {str : Bytes} {s : ℕ × ℕ} (h : Inside str s) :
    beginStep str s = .inr (some s) ∨ ∃ t, beginStep str s = .inl t ∧ Inside str t := by
  obtain ⟨first, last⟩ := s
  by_cases hlt : first < last
  · rw [beginStep_of_lt hlt h.inside]
    split
    · exact .inr ⟨_, rfl, hlt, h.inside⟩
    · exact .inl rfl
  · left
    exact if_neg hlt

/-- A loop whose rounds keep the iterators inside the string, and read there only, scans it. -/
theorem Inside.scans {str : Bytes} {step : ℕ × ℕ → (ℕ × ℕ) ⊕ Option (ℕ × ℕ)} {s t : ℕ × ℕ}
    (h : Inside str s)
    (hstep : ∀ s, Inside str s → step s = .inr (some s) ∨ ∃ t, step s = .inl t ∧ Inside str t)
    (ht : Loop.Returns step s (some t)) : Scans str step s t := by
  refine ⟨fun u hu => ?_, ht⟩
  have hinside : Inside str u := by
    apply hu.invariant (Inside str) h
    intro s t hs hst
    rcases hstep s hs with hexit | ⟨t', hnext, ht'⟩
    · simp [hexit] at hst
    · rw [hnext, Sum.inl.injEq] at hst
      exact hst ▸ ht'
  refine ⟨hinside, ?_⟩
  rcases hstep u hinside with hexit | ⟨_, hnext, -⟩
  · simp [hexit]
  · simp [hnext]

/-- The two loops, one after the other, leave the part of the string that `string_trimmed` keeps. -/
theorem exists_scans (str : Bytes) :
    ∃ first last, Scans str (endStep str) (0, str.length) (0, last) ∧
      Scans str (beginStep str) (0, last) (first, last) ∧ Inside str (first, last) ∧
      stringTrimmed str = (str.take last).drop first := by
  have hlast := lastOf_le str str.length
  have hstart : Inside str (0, lastOf str str.length) := ⟨Nat.zero_le _, hlast⟩
  have hbegin := returns_beginStep hlast (Nat.zero_le (lastOf str str.length))
  have hscan : Scans str (beginStep str) (0, lastOf str str.length)
      (firstOf str 0 (lastOf str str.length), lastOf str str.length) :=
    hstart.scans (fun _ h => h.beginStep) hbegin
  obtain ⟨t, hgoes, hexit⟩ := hbegin.exists_goes
  refine ⟨_, _, ?_, hscan, ?_, stringTrimmed_eq_drop str⟩
  · exact Inside.scans ⟨Nat.zero_le _, le_rfl⟩ (fun _ h => h.endStep) (returns_endStep le_rfl)
  · -- the loop ends in the state that it returns
    have hinside := (hscan.1 t hgoes).1
    rcases hinside.beginStep with hstop | ⟨_, hnext, -⟩
    · rw [hstop, Sum.inr.injEq, Option.some.injEq] at hexit
      exact hexit ▸ hinside
    · simp [hnext] at hexit

/-- `string_trimmed` leaves the one string that remains without the blanks at either end, its two
loops stay inside the string, and no inner byte is touched. -/
theorem stringTrimmed_spec (str : Bytes) :
    (∀ t, Trims str t ↔ t = stringTrimmed str) ∧ (Blank str → stringTrimmed str = []) ∧
      (∃ first last, Scans str (endStep str) (0, str.length) (0, last) ∧
        Scans str (beginStep str) (0, last) (first, last) ∧ Inside str (first, last) ∧
        stringTrimmed str = (str.take last).drop first) ∧
      stringTrimmed (stringTrimmed str) = stringTrimmed str ∧
      ∀ u v b, str = u ++ b :: v → ¬Blank u → ¬Blank v →
        ∃ u' v', stringTrimmed str = u' ++ b :: v' ∧ u' <:+ u ∧ v' <+: v := by
  refine ⟨trims_iff str, stringTrimmed_blank, exists_scans str, stringTrimmed_stringTrimmed str, ?_⟩
  rintro u v b rfl hu hv
  exact exists_inner hu hv b

end StringTrimmed

end ComputerMonitor
