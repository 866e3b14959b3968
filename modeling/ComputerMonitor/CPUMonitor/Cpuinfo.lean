import ComputerMonitor.CPUMonitor

/-! The two texts that are read from `/proc/cpuinfo`, in terms of its lines. -/

namespace ComputerMonitor

open Bytes Stdio

namespace CPUPrivate

def isModelName (buff : Bytes) : Bool := strncmpEq (ascii "model name") buff 10

def isCpuMhz (buff : Bytes) : Bool := strncmpEq (ascii "cpu MHz") buff 7

/-- No line is counted twice. -/
theorem isCpuMhz_of_isModelName {buff : Bytes} (h : isModelName buff = true) :
    isCpuMhz buff = false := by
  by_contra hmhz
  rw [Bool.not_eq_false] at hmhz
  obtain ⟨s, rfl⟩ := (strncmpEq_iff_isPrefix (by decide)).mp h
  obtain ⟨t, ht⟩ := (strncmpEq_iff_isPrefix (by decide)).mp hmhz
  exact absurd (congrArg List.head? ht) (by simp [ascii])

/-- The lines the loop counts: the first `k` with one of the two names. -/
def counted (k : ℕ) (lines : List Bytes) : List Bytes :=
  (lines.filter fun buff => isModelName buff || isCpuMhz buff).take k

/-- What follows the colon, trimmed. -/
def value (buff : Bytes) : Bytes := stringTrimmed (afterColon (cstr buff))

/-- The value on the last of some lines. -/
def lastValue (old : Bytes) (lines : List Bytes) : Bytes := (lines.getLast?.map value).getD old

@[simp] theorem lastValue_nil (old : Bytes) : lastValue old [] = old := rfl

@[simp] theorem lastValue_cons (old line : Bytes) (lines : List Bytes) :
    lastValue old (line :: lines) = lastValue (value line) lines := by
  rw [lastValue, lastValue, List.getLast?_cons, Option.map_some, Option.getD_some]
  cases lines.getLast? <;> rfl

/-- What a line does to the state of the loop. -/
def note (buff : Bytes) (s : CpuinfoState) : CpuinfoState :=
  if isModelName buff then { s with modelName := value buff, findNum := s.findNum + 1 }
  else if isCpuMhz buff then { s with cpuMhz := value buff, findNum := s.findNum + 1 }
  else s

/-- A round of the loop notes the next line. -/
theorem cpuinfoStep_eq {s : CpuinfoState} (h : s.fp.feof = false) :
    cpuinfoStep s =
      let t := note (fgets 1023 s.fp).2.1 { s with fp := (fgets 1023 s.fp).2.2 }
      if t.findNum = 2 then .inr (t.modelName, t.cpuMhz) else .inl t := by
  rw [cpuinfoStep, h, if_neg (by decide)]
  by_cases hname : isModelName (fgets 1023 s.fp).2.1 = true
  · have hmhz := isCpuMhz_of_isModelName hname
    simp only [note, hname, if_true]
    rw [isModelName] at hname
    rw [isCpuMhz] at hmhz
    simp only [hname, hmhz, if_true, value]
    rfl
  · simp only [note, hname, isCpuMhz]
    rw [isModelName] at hname
    simp only [hname, value]
    rfl

/-- The two texts at the end of the loop when it still counts `k` of the lines. -/
def texts (s : CpuinfoState) (k : ℕ) (lines : List Bytes) : Bytes × Bytes :=
  (lastValue s.modelName ((counted k lines).filter isModelName),
    lastValue s.cpuMhz ((counted k lines).filter isCpuMhz))

@[simp] theorem texts_nil (s : CpuinfoState) (k : ℕ) : texts s k [] = (s.modelName, s.cpuMhz) := by
  simp [texts, counted]

@[simp] theorem texts_zero (s : CpuinfoState) (lines : List Bytes) :
    texts s 0 lines = (s.modelName, s.cpuMhz) := by
  simp [texts, counted]

theorem texts_cons {s : CpuinfoState} (h : s.findNum < 2) (buff : Bytes) (lines : List Bytes) :
    texts s (2 - s.findNum) (buff :: lines) =
      texts (note buff s) (2 - (note buff s).findNum) lines := by
  obtain ⟨k, hk⟩ : ∃ k, 2 - s.findNum = k + 1 := ⟨1 - s.findNum, by omega⟩
  have hk' : 2 - (s.findNum + 1) = k := by omega
  by_cases hname : isModelName buff = true
  · have hmhz := isCpuMhz_of_isModelName hname
    simp [texts, counted, note, hname, hmhz, hk, hk']
  · by_cases hmhz : isCpuMhz buff = true
    · simp [texts, counted, note, hname, hmhz, hk, hk']
    · simp [texts, counted, note, hname, hmhz]

theorem findNum_note_le (buff : Bytes) (s : CpuinfoState) :
    (note buff s).findNum ≤ s.findNum + 1 := by
  rw [note]
  split_ifs <;> simp

@[simp] theorem fp_note (buff : Bytes) (s : CpuinfoState) : (note buff s).fp = s.fp := by
  rw [note]
  split_ifs <;> rfl

theorem note_nil (s : CpuinfoState) : note [] s = s := rfl

/-- A round moves the line it notes from the text to the state; at the end of the text that is an
empty line. -/
theorem texts_round {s : CpuinfoState} (hfound : s.findNum < 2) :
    let t := note (fgets 1023 s.fp).2.1 { s with fp := (fgets 1023 s.fp).2.2 }
    texts s (2 - s.findNum) (pieces 1023 s.fp.rest) =
      texts t (2 - t.findNum) (pieces 1023 t.fp.rest) := by
  simp only [fp_note, fgets_rest, fgets_bytes]
  by_cases hrest : s.fp.rest = []
  · simp [hrest, note_nil]
  · rw [pieces_of_ne_nil (by decide) hrest]
    exact texts_cons (s := { s with fp := (fgets 1023 s.fp).2.2 }) hfound _ _

/-- From any point of a text on, the loop takes the values of the lines it still counts. -/
theorem returns_texts (s : CpuinfoState) (h : OnText s.fp) (hfound : s.findNum < 2) :
    Loop.Returns cpuinfoStep s (texts s (2 - s.findNum) (pieces 1023 s.fp.rest)) := by
  induction hn : callsLeft s.fp using Nat.strong_induction_on generalizing s with
  | h n ih =>
    cases hf : s.fp.feof with
    | true =>
      rw [h.flag hf, pieces_nil, texts_nil]
      exact .exit (by simp [cpuinfoStep, hf])
    | false =>
      have hstep := cpuinfoStep_eq hf
      have htext := texts_round hfound
      have hlt := h.callsLeft_lt hf (show 1 < 1023 by decide)
      generalize ht : note _ _ = t at hstep htext
      have hfp : t.fp = (fgets 1023 s.fp).2.2 := by rw [← ht, fp_note]
      have hle : t.findNum ≤ s.findNum + 1 := ht ▸ findNum_note_le _ _
      simp only at hstep htext
      rw [htext]
      by_cases hboth : t.findNum = 2
      · rw [if_pos hboth] at hstep
        rw [hboth, Nat.sub_self, texts_zero]
        exact .exit hstep
      · rw [if_neg hboth] at hstep
        refine .next hstep (ih _ ?_ t ?_ (by omega) rfl)
        · rw [hfp, ← hn]
          exact hlt
        · rw [hfp]
          exact h.fgets 1023

theorem fp_of_cpuinfoStep {s t : CpuinfoState} (h : cpuinfoStep s = .inl t) :
    s.fp.feof = false ∧ t.fp = (fgets 1023 s.fp).2.2 := by
  cases hf : s.fp.feof with
  | true => simp [cpuinfoStep, hf] at h
  | false =>
    rw [cpuinfoStep_eq hf] at h
    simp only at h
    split at h
    · cases h
    · cases h
      exact ⟨rfl, by rw [fp_note]⟩

/-- The loop ends, since it sees the end of the file. -/
theorem getCPUModelNameAndBaseClock_eq_some_iff {fp : Stream} (h : OnText fp)
    (r : Bytes × Bytes) : getCPUModelNameAndBaseClock fp = some r ↔
      Loop.Returns cpuinfoStep ⟨fp, [], [], 0⟩ r := by
  refine Loop.run_eq_some_iff (fun s => OnText s.fp) (fun s => callsLeft s.fp) ?_ h ?_
  · intro s t hs hst
    obtain ⟨hfeof, ht⟩ := fp_of_cpuinfoStep hst
    rw [ht]
    exact ⟨hs.fgets 1023, hs.callsLeft_lt hfeof (by decide)⟩
  · simp only [callsLeft]
    split_ifs <;> omega

def modelNameOf (s : Bytes) : Bytes :=
  lastValue [] ((counted 2 (pieces 1023 s)).filter isModelName)

def cpuMhzOf (s : Bytes) : Bytes := lastValue [] ((counted 2 (pieces 1023 s)).filter isCpuMhz)

/-- The two texts are the values of the lines that are counted. -/
theorem getCPUModelNameAndBaseClock_ofText (s : Bytes) :
    getCPUModelNameAndBaseClock (.ofText s) = some (modelNameOf s, cpuMhzOf s) :=
  (getCPUModelNameAndBaseClock_eq_some_iff (.ofText s) _).mpr
    (returns_texts ⟨.ofText s, [], [], 0⟩ (.ofText s) Nat.zero_lt_two)

end CPUPrivate

namespace CPUMonitor

open CPUPrivate

/-- The text that is kept, if there is one, and otherwise the one just read. -/
def kept (old new : Bytes) : Bytes := if old = [] then new else old

theorem getCPUModelName_ofText (m : CPUMonitor) (s : Bytes) :
    m.getCPUModelName (.ofText s) = some (kept m.modelName (modelNameOf s),
      { m with modelName := kept m.modelName (modelNameOf s) }) := by
  rw [getCPUModelName, kept]
  split_ifs
  · rw [getCPUModelNameAndBaseClock_ofText, Option.map_some]
  · rfl

theorem getCpuBaseClock_ofText (m : CPUMonitor) (s : Bytes) :
    m.getCpuBaseClock (.ofText s) = some (kept m.baseClock (cpuMhzOf s),
      { m with baseClock := kept m.baseClock (cpuMhzOf s) }) := by
  rw [getCpuBaseClock, kept]
  split_ifs
  · rw [getCPUModelNameAndBaseClock_ofText, Option.map_some]
  · rfl

end CPUMonitor

end ComputerMonitor
