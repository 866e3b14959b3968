import ComputerMonitor.Support.Double
import ComputerMonitor.Support.Loop

/-! `Common.h`: the record of one `df` row and the trimming of strings. -/

namespace ComputerMonitor

open Bytes

structure DFStructInfo where
  fileSystem : CharArray 80
  blocks : Double
  used : Double
  available : Double
  useRate : CharArray 10
  mounted : CharArray 80
  deriving DecidableEq

namespace StringTrimmed

/-- What `string_trimmed` calls a blank. -/
def isSpace (ucs4 : UInt8) : Bool := ucs4 == 0x20 || (ucs4 ≤ 0x0d && ucs4 ≥ 0x09)

theorem isSpace_eq : isSpace = Bytes.isSpace := by
  funext b
  simp [isSpace, Bytes.isSpace, Bool.and_comm]

/-- A round of `while ((begin < end) && isSpace(end[-1])) --end;` on the two iterators; `none` is a
read outside the string. -/
def endStep (str : Bytes) (s : ℕ × ℕ) : (ℕ × ℕ) ⊕ Option (ℕ × ℕ) :=
  if s.1 < s.2 then
    match str[s.2 - 1]? with
    | none => .inr none
    | some b => if isSpace b then .inl (s.1, s.2 - 1) else .inr (some s)
  else .inr (some s)

/-- A round of `while ((begin < end) && isSpace(*begin)) begin++;` -/
def beginStep (str : Bytes) (s : ℕ × ℕ) : (ℕ × ℕ) ⊕ Option (ℕ × ℕ) :=
  if s.1 < s.2 then
    match str[s.1]? with
    | none => .inr none
    | some b => if isSpace b then .inl (s.1 + 1, s.2) else .inr (some s)
  else .inr (some s)

/-- Where a loop leaves the iterators; it always does, within a round for each byte and one more. -/
def afterLoop (str : Bytes) (step : ℕ × ℕ → (ℕ × ℕ) ⊕ Option (ℕ × ℕ)) (s : ℕ × ℕ) : ℕ × ℕ :=
  (Loop.run step (str.length + 1) s).join.getD s

end StringTrimmed

open StringTrimmed

def stringTrimmed (str : Bytes) : Bytes :=
  if str.isEmpty then str
  else
    let s := afterLoop str (endStep str) (0, str.length)
    let s := afterLoop str (beginStep str) s
    (str.take s.2).drop s.1

namespace StringTrimmed

theorem endStep_succ {str : Bytes} (first : ℕ) {last : ℕ} (hi : last < str.length) :
    endStep str (first, last + 1) =
      if first < last + 1 ∧ isSpace (str.get ⟨last, hi⟩) then .inl (first, last)
      else .inr (some (first, last + 1)) := by
  have hget : str[last + 1 - 1]? = some (str.get ⟨last, hi⟩) := List.getElem?_eq_getElem hi
  rw [endStep, ite_and, hget]
  rfl

theorem beginStep_of_lt {str : Bytes} {first last : ℕ} (hlt : first < last)
    (hi : last ≤ str.length) :
    beginStep str (first, last) =
      if isSpace (str.get ⟨first, hlt.trans_le hi⟩) then .inl (first + 1, last)
      else .inr (some (first, last)) := by
  have hget : str[first]? = some (str.get ⟨first, hlt.trans_le hi⟩) :=
    List.getElem?_eq_getElem (hlt.trans_le hi)
  rw [beginStep, if_pos hlt, hget]

/-- The length of a part of the string without the blanks at its end. -/
def lastOf (str : Bytes) (last : ℕ) : ℕ := ((str.take last).rdropWhile isSpace).length

/-- The place behind the blanks at the front of a part of the string. -/
def firstOf (str : Bytes) (first last : ℕ) : ℕ :=
  first + (((str.take last).drop first).takeWhile isSpace).length

/-- The first loop passes the blanks at the end. -/
theorem returns_endStep {str : Bytes} {last : ℕ} (hi : last ≤ str.length) :
    Loop.Returns (endStep str) (0, last) (some (0, lastOf str last)) := by
  induction last with
  | zero => exact .exit rfl
  | succ last ih =>
    have htake : str.take (last + 1) = str.take last ++ [str.get ⟨last, hi⟩] := by simp
    by_cases hb : isSpace (str.get ⟨last, hi⟩) = true
    · rw [lastOf, htake, List.rdropWhile_concat_pos _ _ _ hb]
      exact .next ((endStep_succ 0 hi).trans (if_pos ⟨Nat.succ_pos last, hb⟩)) (ih (by omega))
    · have hlast : lastOf str (last + 1) = last + 1 := by
        rw [lastOf, htake, List.rdropWhile_concat_neg _ _ _ hb, ← htake, List.length_take]
        omega
      rw [hlast]
      exact .exit ((endStep_succ 0 hi).trans (if_neg fun h => hb h.2))

/-- The second one passes those at the front. -/
theorem returns_beginStep {str : Bytes} {last : ℕ} (hi : last ≤ str.length) {first : ℕ}
    (ho : first ≤ last) :
    Loop.Returns (beginStep str) (first, last) (some (firstOf str first last, last)) := by
  induction hn : last - first generalizing first with
  | zero =>
    have hnil : (str.take last).drop first = [] := by
      rw [List.drop_eq_nil_iff, List.length_take]
      omega
    rw [firstOf, hnil]
    exact .exit (if_neg (by omega))
  | succ n ih =>
    have hlt : first < last := by omega
    have hlen : first < (str.take last).length := by
      rw [List.length_take]
      omega
    have hdrop : (str.take last).drop first =
        str.get ⟨first, hlt.trans_le hi⟩ :: (str.take last).drop (first + 1) := by
      rw [List.drop_eq_getElem_cons hlen]
      simp
    by_cases hb : isSpace (str.get ⟨first, hlt.trans_le hi⟩) = true
    · have hnext : Loop.Returns (beginStep str) (first + 1, last)
          (some (firstOf str (first + 1) last, last)) := ih (by omega) (by omega)
      have hfirst : firstOf str first last = firstOf str (first + 1) last := by
        rw [firstOf, firstOf, hdrop, List.takeWhile_cons_of_pos hb, List.length_cons]
        omega
      rw [hfirst]
      exact .next ((beginStep_of_lt hlt hi).trans (if_pos hb)) hnext
    · rw [firstOf, hdrop, List.takeWhile_cons_of_neg hb]
      exact .exit ((beginStep_of_lt hlt hi).trans (if_neg hb))

theorem afterLoop_eq {str : Bytes} {step : ℕ × ℕ → (ℕ × ℕ) ⊕ Option (ℕ × ℕ)} {s t : ℕ × ℕ}
    (hstep : ∀ u v, step u = .inl v → v.2 - v.1 < u.2 - u.1) (hs : s.2 - s.1 ≤ str.length)
    (h : Loop.Returns step s (some t)) : afterLoop str step s = t := by
  have hrun := (Loop.run_eq_some_iff (fun _ => True) (fun u => u.2 - u.1)
    (fun u v _ huv => ⟨trivial, hstep u v huv⟩) trivial (Nat.lt_succ_of_le hs)).mpr h
  rw [afterLoop, hrun]
  rfl

theorem endStep_lt (str : Bytes) (u v : ℕ × ℕ) (h : endStep str u = .inl v) :
    v.2 - v.1 < u.2 - u.1 := by
  rw [endStep] at h
  split_ifs at h with hlt
  split at h
  · cases h
  · split_ifs at h
    cases h
    dsimp only
    omega

theorem beginStep_lt (str : Bytes) (u v : ℕ × ℕ) (h : beginStep str u = .inl v) :
    v.2 - v.1 < u.2 - u.1 := by
  rw [beginStep] at h
  split_ifs at h with hlt
  split at h
  · cases h
  · split_ifs at h
    cases h
    dsimp only
    omega

theorem lastOf_le (str : Bytes) (last : ℕ) : lastOf str last ≤ last :=
  (List.rdropWhile_prefix isSpace (str.take last)).length_le.trans (List.length_take_le _ _)

end StringTrimmed

/-- The part of the string that the two loops leave. -/
theorem stringTrimmed_eq_drop (str : Bytes) : stringTrimmed str =
    (str.take (lastOf str str.length)).drop (firstOf str 0 (lastOf str str.length)) := by
  have hlast := lastOf_le str str.length
  rw [stringTrimmed]
  split
  · simp_all
  · rw [afterLoop_eq (endStep_lt str) (Nat.sub_le _ _) (returns_endStep le_rfl)]
    dsimp only
    rw [afterLoop_eq (beginStep_lt str) ((Nat.sub_le _ _).trans hlast)
      (returns_beginStep hlast (Nat.zero_le _))]

/-- Trimming is dropping the blanks at either end. -/
theorem stringTrimmed_eq (str : Bytes) :
    stringTrimmed str = (str.rdropWhile Bytes.isSpace).dropWhile Bytes.isSpace := by
  have hprefix : str.take (lastOf str str.length) = str.rdropWhile StringTrimmed.isSpace := by
    rw [lastOf, List.take_length]
    exact (List.prefix_iff_eq_take.mp (List.rdropWhile_prefix _ str)).symm
  have hdrop : ∀ t : Bytes, t.drop (t.takeWhile Bytes.isSpace).length =
      t.dropWhile Bytes.isSpace := by
    intro t
    calc
      _ = (t.takeWhile Bytes.isSpace ++ t.dropWhile Bytes.isSpace).drop
          (t.takeWhile Bytes.isSpace).length := by rw [List.takeWhile_append_dropWhile]
      _ = t.dropWhile Bytes.isSpace := List.drop_left
  rw [stringTrimmed_eq_drop, firstOf, hprefix, isSpace_eq, Nat.zero_add, List.drop_zero, hdrop]

example : stringTrimmed (ascii " \t2400.000 MHz\n") = ascii "2400.000 MHz" := by decide

theorem stringTrimmed_line (str : Bytes) :
    stringTrimmed (str ++ [newline]) = stringTrimmed str := by
  rw [stringTrimmed_eq, stringTrimmed_eq, List.rdropWhile_concat_pos _ _ _ isSpace_newline]

/-- What trimming removes is blank, and it removes nothing else. -/
theorem exists_stringTrimmed (str : Bytes) :
    ∃ p q, str = p ++ stringTrimmed str ++ q ∧ Blank p ∧ Blank q := by
  refine ⟨(str.rdropWhile Bytes.isSpace).takeWhile Bytes.isSpace, str.rtakeWhile Bytes.isSpace,
    ?_, fun b hb => List.mem_takeWhile_imp hb, fun b hb => List.mem_rtakeWhile_imp hb⟩
  rw [stringTrimmed_eq, List.takeWhile_append_dropWhile]
  exact (List.rdropWhile_append_rtakeWhile).symm

end ComputerMonitor
