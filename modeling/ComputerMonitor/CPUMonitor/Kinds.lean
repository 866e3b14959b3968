import ComputerMonitor.CPUMonitor.Cpuinfo

/-! The two kinds of lines in `/proc/cpuinfo` and the lines at which the loop stops. -/

namespace ComputerMonitor

open Bytes Stdio

namespace CPUPrivate

/-! ### Counted lines -/

/-- A line that is counted: whether it is one with a model name, and its value. -/
def mark (line : Bytes) : Option (Bool × Bytes) :=
  if isModelName line then some (true, value line)
  else if isCpuMhz line then some (false, value line)
  else none

def marks (lines : List Bytes) : List (Bool × Bytes) := lines.filterMap mark

def pair (line : Bytes) : Bool × Bytes := (isModelName line, value line)

theorem marks_eq (lines : List Bytes) :
    marks lines = (lines.filter fun line => isModelName line || isCpuMhz line).map pair := by
  induction lines with
  | nil => rfl
  | cons line lines ih =>
    rw [marks] at ih
    cases hname : isModelName line with
    | true => simp [marks, mark, pair, hname, ih]
    | false =>
      cases hmhz : isCpuMhz line with
      | true => simp [marks, mark, pair, hname, hmhz, ih]
      | false => simp [marks, mark, hname, hmhz, ih]

theorem marks_counted (k : ℕ) (lines : List Bytes) :
    (counted k lines).map pair = (marks lines).take k := by
  rw [counted, marks_eq, List.map_take]

/-- Of the lines that are counted, those without a model name are the ones with the clock. -/
theorem isCpuMhz_of_mem_counted {k : ℕ} {lines : List Bytes} {line : Bytes}
    (h : line ∈ counted k lines) : isCpuMhz line = !isModelName line := by
  have hmem := List.of_mem_filter (List.mem_of_mem_take h)
  cases hname : isModelName line with
  | true => simpa using isCpuMhz_of_isModelName hname
  | false => simpa [hname] using hmem

def lastMark (kind : Bool) (ms : List (Bool × Bytes)) : Bytes :=
  ((ms.filter fun m => m.1 == kind).getLast?.map Prod.snd).getD []

theorem modelNameOf_eq (s : Bytes) :
    modelNameOf s = lastMark true ((marks (pieces 1023 s)).take 2) := by
  rw [modelNameOf, lastValue, lastMark, ← marks_counted, List.filter_map, List.getLast?_map,
    Option.map_map]
  congr 3
  apply List.filter_congr
  intro line _
  simp [pair]

theorem cpuMhzOf_eq (s : Bytes) :
    cpuMhzOf s = lastMark false ((marks (pieces 1023 s)).take 2) := by
  rw [cpuMhzOf, lastValue, lastMark, ← marks_counted, List.filter_map, List.getLast?_map,
    Option.map_map]
  congr 3
  apply List.filter_congr
  intro line hline
  simp [pair, isCpuMhz_of_mem_counted hline]

/-- The lines of one kind. -/
def isKind (kind : Bool) (line : Bytes) : Bool := if kind then isModelName line else isCpuMhz line

/-- The first line of a kind is the first of its marks. -/
theorem find_marks (kind : Bool) (lines : List Bytes) :
    (marks lines).find? (·.1 == kind) = (lines.find? (isKind kind)).map pair := by
  rw [marks_eq, List.find?_map, List.find?_filter]
  congr 2
  funext line
  cases hname : isModelName line with
  | true =>
    have hmhz := isCpuMhz_of_isModelName hname
    cases kind <;> simp [pair, isKind, hname, hmhz]
  | false => cases kind <;> simp [pair, isKind, hname]

/-! ### Lines and what `fgets` takes -/

theorem afterColon_append {p : Bytes} (h : 0x3a ∉ p) (s : Bytes) :
    afterColon (p ++ 0x3a :: s) = s := by
  have hidx : (p ++ 0x3a :: s).idxOf? 0x3a = some p.length := by
    rw [List.idxOf?_eq_some_iff]
    refine ⟨by simp, by simp, ?_⟩
    intro j hj heq
    apply h
    rw [List.getElem_append_left hj] at heq
    exact heq ▸ List.getElem_mem hj
  rw [afterColon, hidx]
  simp

theorem afterColon_of_notMem {s : Bytes} (h : 0x3a ∉ s) : afterColon s = s := by
  rw [afterColon, List.idxOf?_eq_none_iff.mpr h]

theorem stringTrimmed_afterColon_line (s : Bytes) :
    stringTrimmed (afterColon (s ++ [newline])) = stringTrimmed (afterColon s) := by
  by_cases h : 0x3a ∈ s
  · obtain ⟨p, v, rfl, hp⟩ := List.eq_append_cons_of_mem h
    rw [List.append_assoc, List.cons_append, afterColon_append hp, afterColon_append hp,
      stringTrimmed_line]
  · have hline : 0x3a ∉ s ++ [newline] := by simp [h, show (0x3a : UInt8) ≠ newline by decide]
    rw [afterColon_of_notMem hline, afterColon_of_notMem h, stringTrimmed_line]

/-- The newline that `fgets` leaves in the buffer is trimmed away. -/
theorem value_line (line : Bytes) : value (line ++ [newline]) = value line := by
  by_cases h : 0 ∈ line
  · obtain ⟨p, s, rfl, hp⟩ := List.eq_append_cons_of_mem h
    rw [value, value, List.append_assoc, cstr_append hp, cstr_append hp]
    rfl
  · have hline : 0 ∉ line ++ [newline] := by simp [h, show (0 : UInt8) ≠ newline by decide]
    rw [value, value, cstr_of_notMem hline, cstr_of_notMem h, stringTrimmed_afterColon_line]

theorem mark_line (line : Bytes) : mark (line ++ [newline]) = mark line := by
  have hname : isModelName (line ++ [newline]) = isModelName line :=
    strncmpEq_line (by decide) (by decide) line
  have hmhz : isCpuMhz (line ++ [newline]) = isCpuMhz line :=
    strncmpEq_line (by decide) (by decide) line
  rw [mark, mark, hname, hmhz, value_line]

theorem mark_nil : mark [] = none := rfl

/-- A text whose lines fit the buffer; the last of them may lack its newline. -/
structure CpuinfoText where
  lines : List Bytes
  last : Bytes
  inLine : ∀ line ∈ lines ++ [last], newline ∉ line
  short : ∀ line ∈ lines ++ [last], line.length < 1022

namespace CpuinfoText

def text (t : CpuinfoText) : Bytes := unlines t.lines ++ t.last

def allLines (t : CpuinfoText) : List Bytes := t.lines ++ [t.last]

theorem pieces_text (t : CpuinfoText) :
    pieces 1023 t.text = t.lines.map (· ++ [newline]) ++ if t.last = [] then [] else [t.last] := by
  have hlast := t.inLine t.last (by simp)
  have hshort := t.short t.last (by simp)
  rw [text, pieces_unlines]
  · congr 1
    split_ifs with h
    · rw [h, pieces_nil]
    · rw [pieces_of_ne_nil (by decide) h, getline_last hlast (by omega), pieces_nil]
  · intro line hline
    have := t.short line (by simp [hline])
    exact ⟨t.inLine line (by simp [hline]), by omega⟩

theorem marks_pieces (t : CpuinfoText) : marks (pieces 1023 t.text) = marks t.allLines := by
  have hlines : marks (t.lines.map (· ++ [newline])) = marks t.lines := by
    rw [marks, marks, List.filterMap_map]
    exact List.filterMap_congr fun line _ => mark_line line
  rw [pieces_text, allLines, marks, marks, List.filterMap_append, List.filterMap_append]
  rw [marks, marks] at hlines
  rw [hlines]
  congr 1
  split_ifs with h
  · simp [h, mark_nil]
  · rfl

end CpuinfoText

/-! ### The state of the loop -/

theorem findNum_note (buff : Bytes) (s : CpuinfoState) :
    (note buff s).findNum = s.findNum + (marks [buff]).length := by
  cases hname : isModelName buff with
  | true => simp [note, marks, mark, hname]
  | false =>
    cases hmhz : isCpuMhz buff with
    | true => simp [note, marks, mark, hname, hmhz]
    | false => simp [note, marks, mark, hname, hmhz]

/-- The lines that have been read and those that are left make up the text. -/
structure Reached (s : Bytes) (t : CpuinfoState) : Prop where
  onText : OnText t.fp
  found_lt : t.findNum < 2
  front : ∃ front, pieces 1023 s = front ++ pieces 1023 t.fp.rest ∧ (marks front).length = t.findNum

theorem reached_start (s : Bytes) : Reached s ⟨.ofText s, [], [], 0⟩ :=
  ⟨.ofText s, Nat.zero_lt_two, [], rfl, rfl⟩

/-- The line that a round reads moves to the front. -/
theorem Reached.round {s : Bytes} {t : CpuinfoState} (h : Reached s t) :
    ∃ front, pieces 1023 s = front ++ pieces 1023 (fgets 1023 t.fp).2.2.rest ∧
      (marks front).length =
        (note (fgets 1023 t.fp).2.1 { t with fp := (fgets 1023 t.fp).2.2 }).findNum := by
  obtain ⟨front, hpieces, hfound⟩ := h.front
  rw [findNum_note, fgets_rest, fgets_bytes]
  by_cases hrest : t.fp.rest = []
  · refine ⟨front, by simpa [hrest] using hpieces, ?_⟩
    rw [hrest, getline_nil, hfound]
    rfl
  · refine ⟨front ++ [(getline (1023 - 1) t.fp.rest).1], ?_, ?_⟩
    · rw [hpieces, pieces_of_ne_nil (by decide) hrest, List.append_assoc]
      rfl
    · rw [marks, List.filterMap_append, List.length_append, ← marks, hfound]
      rfl

theorem Reached.next {s : Bytes} {t u : CpuinfoState} (h : Reached s t)
    (hstep : cpuinfoStep t = .inl u) : Reached s u := by
  obtain ⟨hfeof, hfp⟩ := fp_of_cpuinfoStep hstep
  have hround := h.round
  rw [cpuinfoStep_eq hfeof] at hstep
  simp only at hstep
  split at hstep
  · cases hstep
  · rename_i hfound
    cases hstep
    have hle := findNum_note_le (fgets 1023 t.fp).2.1 { t with fp := (fgets 1023 t.fp).2.2 }
    have hlt := h.found_lt
    simp only at hle
    refine ⟨?_, by omega, ?_⟩
    · rw [fp_note]
      exact h.onText.fgets 1023
    · rw [fp_note]
      exact hround

/-- The loop stops at the end of the text or at the second line it counts. -/
theorem Reached.exit {s : Bytes} {t : CpuinfoState} {r : Bytes × Bytes} (h : Reached s t)
    (hexit : cpuinfoStep t = .inr r) :
    ∃ front, pieces 1023 s = front ++ pieces 1023 (fgets 1023 t.fp).2.2.rest ∧
      (front = pieces 1023 s ∧ (marks front).length < 2 ∨ (marks front).length = 2) := by
  cases hfeof : t.fp.feof with
  | true =>
    obtain ⟨front, hpieces, hfound⟩ := h.front
    have hrest := h.onText.flag hfeof
    rw [hrest, pieces_nil, List.append_nil] at hpieces
    refine ⟨front, ?_, .inl ⟨hpieces.symm, hfound ▸ h.found_lt⟩⟩
    rw [fgets_rest, hrest, getline_nil, pieces_nil, List.append_nil, hpieces]
  | false =>
    obtain ⟨front, hpieces, hfound⟩ := h.round
    rw [cpuinfoStep_eq hfeof] at hexit
    simp only at hexit
    split at hexit
    · rename_i hboth
      exact ⟨front, hpieces, .inr (hfound.trans hboth)⟩
    · cases hexit

/-! ### Both kinds -/

def SeenBoth (lines : List Bytes) : Prop := ∀ kind, ∃ line ∈ lines, isKind kind line = true

theorem seenBoth_iff (lines : List Bytes) :
    SeenBoth lines ↔ ∀ kind, ∃ m ∈ marks lines, m.1 = kind := by
  apply forall_congr'
  intro kind
  have hfind := congrArg Option.isSome (find_marks kind lines)
  rw [Option.isSome_map, Bool.eq_iff_iff, List.find?_isSome, List.find?_isSome] at hfind
  rw [← hfind]
  simp

/-- The loop has read a line of each kind whenever it stops. -/
def ReadsBoth (s : Bytes) : Prop :=
  ∀ t r, Loop.Goes cpuinfoStep ⟨.ofText s, [], [], 0⟩ t → cpuinfoStep t = .inr r →
    ∃ front, pieces 1023 s = front ++ pieces 1023 (fgets 1023 t.fp).2.2.rest ∧ SeenBoth front

/-- The first two lines with either name are one of each kind. -/
def DifferentKinds (lines : List Bytes) : Prop :=
  ∃ a b, counted 2 lines = [a, b] ∧ isModelName a ≠ isModelName b

theorem differentKinds_iff (lines : List Bytes) :
    DifferentKinds lines ↔ ∃ m n, (marks lines).take 2 = [m, n] ∧ m.1 ≠ n.1 := by
  rw [← marks_counted]
  constructor
  · rintro ⟨a, b, hcounted, hne⟩
    exact ⟨pair a, pair b, by rw [hcounted]; rfl, hne⟩
  · rintro ⟨m, n, hmap, hne⟩
    obtain ⟨a, as, hcounted, rfl, has⟩ := List.map_eq_cons_iff.mp hmap
    obtain ⟨b, bs, rfl, rfl, hbs⟩ := List.map_eq_cons_iff.mp has
    rw [List.map_eq_nil_iff.mp hbs] at hcounted
    exact ⟨a, b, hcounted, hne⟩

/-- Two marks at most that include both kinds are one of each. -/
theorem exists_eq_pair {ms : List (Bool × Bytes)} (hlen : ms.length ≤ 2)
    (h : ∀ kind, ∃ m ∈ ms, m.1 = kind) : ∃ m n, ms = [m, n] ∧ m.1 ≠ n.1 := by
  match ms with
  | [] => simp at h
  | [m] =>
    have hother := h (!m.1)
    simp at hother
  | [m, n] =>
    refine ⟨m, n, rfl, fun heq => ?_⟩
    have hother := h (!m.1)
    simp [heq] at hother
  | _ :: _ :: _ :: _ => simp at hlen

/-- What has been read when the loop stops in time. -/
theorem readsBoth_iff (s : Bytes) :
    ReadsBoth s ↔ ∃ m n, (marks (pieces 1023 s)).take 2 = [m, n] ∧ m.1 ≠ n.1 := by
  have hreached : ∀ t, Loop.Goes cpuinfoStep ⟨.ofText s, [], [], 0⟩ t → Reached s t :=
    fun t ht => ht.invariant (Reached s) (reached_start s) fun _ _ => Reached.next
  constructor
  · intro hreads
    obtain ⟨t, hgoes, hexit⟩ :=
      (returns_texts ⟨.ofText s, [], [], 0⟩ (.ofText s) Nat.zero_lt_two).exists_goes
    obtain ⟨front, hfront, hseen⟩ := hreads t _ hgoes hexit
    obtain ⟨front', hfront', hcase⟩ := (hreached t hgoes).exit hexit
    have heq : front' = front := List.append_cancel_right (hfront'.symm.trans hfront)
    rw [heq] at hcase
    obtain ⟨m, n, hmarks, hne⟩ := exists_eq_pair (by omega) ((seenBoth_iff front).mp hseen)
    refine ⟨m, n, ?_, hne⟩
    rw [hfront, marks, List.filterMap_append, ← marks, hmarks]
    rfl
  · rintro ⟨m, n, htake, hne⟩ t r hgoes hexit
    obtain ⟨front, hfront, hcase⟩ := (hreached t hgoes).exit hexit
    refine ⟨front, hfront, ?_⟩
    have hlen := congrArg List.length htake
    rw [List.length_take, List.length_cons, List.length_singleton] at hlen
    have hmarks : marks front = [m, n] := by
      rcases hcase with ⟨hall, hshort⟩ | hfull
      · rw [← hall] at hlen
        omega
      · rw [hfront, marks, List.filterMap_append, ← marks, List.take_append_of_le_length (by omega),
          List.take_of_length_le (by omega)] at htake
        exact htake
    rw [seenBoth_iff, hmarks]
    intro kind
    by_cases hm : m.1 = kind
    · exact ⟨m, by simp, hm⟩
    · refine ⟨n, by simp, ?_⟩
      revert hne hm
      cases m.1 <;> cases n.1 <;> cases kind <;> simp

/-! ### The two texts -/

/-- The first line of a kind is `p`, its first colon and `v`. -/
structure FirstLine (kind : Bool) (lines : List Bytes) (p v : Bytes) : Prop where
  find : lines.find? (isKind kind) = some (p ++ 0x3a :: v)
  colon : 0x3a ∉ p

/-- The line `p : v` has no NUL, or one that cuts it in front of the colon and leaves there the text
that also follows the colon. -/
def Legible (p v : Bytes) : Prop :=
  (0 ∉ p ∧ 0 ∉ v) ∨ (0 ∈ p ∧ stringTrimmed (cstr p) = stringTrimmed v)

/-- A NUL is no blank, so trimming keeps it. -/
theorem zero_mem_stringTrimmed_iff {v : Bytes} : 0 ∈ stringTrimmed v ↔ 0 ∈ v := by
  obtain ⟨front, back, hv, hfront, hback⟩ := exists_stringTrimmed v
  constructor
  · intro h
    rw [hv]
    simp [h]
  · intro h
    rw [hv, List.mem_append, List.mem_append] at h
    rcases h with (h | h) | h
    · exact absurd (hfront 0 h) (by decide)
    · exact h
    · exact absurd (hback 0 h) (by decide)

theorem value_eq_iff {p v : Bytes} (h : 0x3a ∉ p) :
    value (p ++ 0x3a :: v) = stringTrimmed v ↔ Legible p v := by
  by_cases hp : 0 ∈ p
  · -- the C string ends in front of the colon
    obtain ⟨q, r, rfl, hq⟩ := List.eq_append_cons_of_mem hp
    have hcstr : ∀ t, cstr (q ++ 0 :: t) = q := fun t => (cstr_append hq).trans (List.append_nil q)
    have hcolon : 0x3a ∉ q := fun hmem => h (List.mem_append_left _ hmem)
    rw [value, List.append_assoc, List.cons_append, hcstr, afterColon_of_notMem hcolon, Legible,
      hcstr]
    simp
  · have hcstr : cstr (p ++ 0x3a :: v) = p ++ 0x3a :: cstr v := cstr_append hp
    rw [value, hcstr, afterColon_append h, Legible]
    by_cases hv : 0 ∈ v
    · have hne : stringTrimmed (cstr v) ≠ stringTrimmed v := by
        intro heq
        have hmem := zero_mem_stringTrimmed_iff.mpr hv
        rw [← heq, zero_mem_stringTrimmed_iff] at hmem
        exact zero_notMem_cstr v hmem
      simp [hp, hv, hne]
    · simp [hp, hv, cstr_of_notMem hv]

theorem FirstLine.find_marks {kind : Bool} {lines : List Bytes} {p v : Bytes}
    (h : FirstLine kind lines p v) :
    (marks lines).find? (·.1 == kind) = some (kind, value (p ++ 0x3a :: v)) := by
  have hkind := List.find?_some h.find
  have hname : isModelName (p ++ 0x3a :: v) = kind := by
    cases kind with
    | true => exact hkind
    | false =>
      by_contra hname
      rw [Bool.not_eq_false] at hname
      simp [isKind, isCpuMhz_of_isModelName hname] at hkind
  rw [CPUPrivate.find_marks, h.find, Option.map_some, pair, hname]

/-- Of two different kinds, the one that is found is also the last. -/
theorem lastMark_eq {ms : List (Bool × Bytes)} {m n : Bool × Bytes} (h : ms.take 2 = [m, n])
    (hne : m.1 ≠ n.1) {kind : Bool} {v : Bytes}
    (hfind : ms.find? (·.1 == kind) = some (kind, v)) : lastMark kind (ms.take 2) = v := by
  rw [← List.take_append_drop 2 ms, h] at hfind
  rw [h, lastMark]
  by_cases hm : m.1 = kind
  · have hn : n.1 ≠ kind := fun hn => hne (hm.trans hn.symm)
    simp [hm] at hfind
    simp [hn, hfind]
  · have hn : n.1 = kind := by
      revert hne hm
      cases m.1 <;> cases n.1 <;> cases kind <;> simp
    simp [hm, hn] at hfind
    simp [hm, hfind]

/-- The two texts are right, and the loop does not stop before it has read them, exactly if the
first two lines that it counts are of different kinds and no NUL takes the two values away. -/
theorem getCPUModelNameAndBaseClock_readsBoth (t : CpuinfoText) {p q name clock : Bytes}
    (hname : FirstLine true t.allLines p name) (hclock : FirstLine false t.allLines q clock) :
    (getCPUModelNameAndBaseClock (.ofText t.text) =
        some (stringTrimmed name, stringTrimmed clock) ∧ ReadsBoth t.text) ↔
      DifferentKinds t.allLines ∧ Legible p name ∧ Legible q clock := by
  rw [readsBoth_iff, differentKinds_iff, t.marks_pieces, and_comm]
  apply and_congr_right
  rintro ⟨m, n, htake, hne⟩
  rw [getCPUModelNameAndBaseClock_ofText, modelNameOf_eq, cpuMhzOf_eq, t.marks_pieces,
    lastMark_eq htake hne hname.find_marks, lastMark_eq htake hne hclock.find_marks,
    Option.some.injEq, Prod.mk.injEq, value_eq_iff hname.colon, value_eq_iff hclock.colon]

def xeon : CpuinfoText where
  lines := [ascii "processor\t: 0", ascii "model name\t: Intel(R) Xeon(R)",
    ascii "cpu MHz\t\t: 2400.000"]
  last := []
  inLine := by decide
  short := by decide

theorem getCPUModelNameAndBaseClock_readsBoth_xeon :
    getCPUModelNameAndBaseClock (.ofText xeon.text) =
        some (stringTrimmed (ascii " Intel(R) Xeon(R)"), stringTrimmed (ascii " 2400.000")) ∧
      ReadsBoth xeon.text :=
  (getCPUModelNameAndBaseClock_readsBoth xeon (p := ascii "model name\t") (q := ascii "cpu MHz\t\t")
    ⟨by decide, by decide⟩ ⟨by decide, by decide⟩).mpr
    ⟨⟨ascii "model name\t: Intel(R) Xeon(R)", ascii "cpu MHz\t\t: 2400.000", by decide, by decide⟩,
      .inl (by decide), .inl (by decide)⟩

/-- The names of two processors stand before the first clock. -/
def namesFirst : CpuinfoText where
  lines := [ascii "model name\t: Xeon", ascii "model name\t: Xeon", ascii "cpu MHz\t\t: 2400.000"]
  last := []
  inLine := by decide
  short := by decide

theorem not_readsBoth_namesFirst :
    ¬∀ (t : CpuinfoText) (p q name clock : Bytes), FirstLine true t.allLines p name →
      FirstLine false t.allLines q clock →
        getCPUModelNameAndBaseClock (.ofText t.text) =
          some (stringTrimmed name, stringTrimmed clock) ∧ ReadsBoth t.text := by
  intro h
  obtain ⟨htexts, -⟩ := h namesFirst (ascii "model name\t") (ascii "cpu MHz\t\t") (ascii " Xeon")
    (ascii " 2400.000") ⟨by decide, by decide⟩ ⟨by decide, by decide⟩
  rw [getCPUModelNameAndBaseClock_ofText, cpuMhzOf_eq, namesFirst.marks_pieces] at htexts
  rw [Option.some.injEq, Prod.mk.injEq] at htexts
  exact absurd htexts.2 (by decide)

end CPUPrivate

end ComputerMonitor
