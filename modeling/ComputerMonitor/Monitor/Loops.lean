import ComputerMonitor.CPUMonitor.Kinds
import ComputerMonitor.DiskMonitor
import ComputerMonitor.MemoryMonitor

/-! The ends of the four reading loops, on streams that end and on streams whose reads fail. -/

namespace ComputerMonitor

open Bytes Stdio

namespace CPUPrivate

theorem length_marks_round (fp : Stream) :
    (marks [(fgets 1023 fp).2.1]).length + (marks (pieces 1023 (fgets 1023 fp).2.2.rest)).length =
      (marks (pieces 1023 fp.rest)).length := by
  rw [fgets_bytes, fgets_rest]
  by_cases hrest : fp.rest = []
  · rw [hrest, getline_nil, pieces_nil]
    rfl
  · rw [pieces_of_ne_nil (by decide) hrest, ← List.length_append, marks, marks,
      ← List.filterMap_append]
    rfl

/-- Where a read fails nothing but the second line that is counted ends the loop. -/
theorem two_le_of_returns {s : CpuinfoState} {r : Bytes × Bytes}
    (h : Loop.Returns cpuinfoStep s r) (hfailing : Failing s.fp) :
    2 ≤ s.findNum + (marks (pieces 1023 s.fp.rest)).length := by
  induction h with
  | @exit s r hstep =>
    have hround := length_marks_round s.fp
    rw [cpuinfoStep_eq hfailing.flag] at hstep
    simp only [findNum_note] at hstep
    split at hstep
    · omega
    · cases hstep
  | @next s t r hstep _ ih =>
    have hround := length_marks_round s.fp
    rw [cpuinfoStep_eq hfailing.flag] at hstep
    simp only at hstep
    split at hstep
    · cases hstep
    · cases hstep
      have hrest := ih (by rw [fp_note]; exact hfailing.fgets 1023)
      rw [findNum_note, fp_note] at hrest
      simp only at hrest
      omega

theorem ends_of_two_le {s : CpuinfoState} (hfailing : Failing s.fp) (hfound : s.findNum < 2)
    (htwo : 2 ≤ s.findNum + (marks (pieces 1023 s.fp.rest)).length) :
    Loop.Ends cpuinfoStep s := by
  induction hn : s.fp.rest.length using Nat.strong_induction_on generalizing s with
  | h n ih =>
    have hround := length_marks_round s.fp
    have hstep := cpuinfoStep_eq hfailing.flag
    have hle := findNum_note_le (fgets 1023 s.fp).2.1 { s with fp := (fgets 1023 s.fp).2.2 }
    have hcount := findNum_note (fgets 1023 s.fp).2.1 { s with fp := (fgets 1023 s.fp).2.2 }
    have hfp := fp_note (fgets 1023 s.fp).2.1 { s with fp := (fgets 1023 s.fp).2.2 }
    simp only at hstep hle hcount hfp
    split at hstep
    · exact ⟨_, .exit hstep⟩
    · have hrest : s.fp.rest ≠ [] := by
        intro hnil
        rw [hnil, pieces_nil] at htwo
        exact absurd htwo (by simpa [marks] using hfound)
      have hlt := length_getline_lt (n := 1023 - 1) (by decide) hrest
      rw [← fgets_rest] at hlt
      obtain ⟨r, hr⟩ := ih _ (by rw [← hn]; exact hlt)
        (s := note (fgets 1023 s.fp).2.1 { s with fp := (fgets 1023 s.fp).2.2 })
        (by rw [hfp]; exact hfailing.fgets 1023) (by omega) (by rw [hfp]; omega) (by rw [hfp])
      exact ⟨r, .next hstep hr⟩

/-- A stream that ends is read to its end; one whose reads fail is read on for ever unless two lines
are counted before. -/
theorem ends_iff (text : Bytes) (ending : Ending) :
    Loop.Ends cpuinfoStep ⟨⟨text, ending, false⟩, [], [], 0⟩ ↔
      ending = .eof ∨ 2 ≤ (marks (pieces 1023 text)).length := by
  cases ending with
  | eof =>
    rw [eq_self, true_or, iff_true]
    exact ⟨_, returns_texts ⟨.ofText text, [], [], 0⟩ (.ofText text) Nat.zero_lt_two⟩
  | error =>
    have hfailing : Failing ⟨text, .error, false⟩ := ⟨rfl, rfl⟩
    constructor
    · rintro ⟨r, hr⟩
      have htwo := two_le_of_returns hr hfailing
      right
      simpa using htwo
    · intro h
      apply ends_of_two_le hfailing Nat.zero_lt_two
      simpa using h

end CPUPrivate

namespace MemoryPrivate

theorem ends (fp : Stream) : Loop.Ends meminfoStep (fp, .zero) :=
  Loop.ends_of_variant (fun _ => True) (fun s => s.1.rest.length)
    (fun _ _ _ h => ⟨trivial, length_meminfoStep_lt h⟩) trivial

end MemoryPrivate

namespace DiskPrivate

theorem ends_df (s : Bytes) : Loop.Ends dfStep (s, []) :=
  Loop.ends_of_variant (fun _ => True) (fun s => s.1.length)
    (fun _ _ _ h => ⟨trivial, length_dfStep_lt h⟩) trivial

theorem ends_io (pipe : Stream) : Loop.Ends ioStep (ioInit pipe) :=
  Loop.ends_of_variant (fun _ => True) (fun s => s.fp.rest.length)
    (fun _ _ _ h => ⟨trivial, length_ioStep_lt h⟩) trivial

end DiskPrivate

/-- Each of the four loops, with the lines read in front of it, ends on the stream. -/
structure LoopsEnd (fp : Stream) : Prop where
  getMemoryInfo : Loop.Ends MemoryPrivate.meminfoStep (fp, .zero)
  getCPUModelNameAndBaseClock : Loop.Ends CPUPrivate.cpuinfoStep ⟨fp, [], [], 0⟩
  -- a read that fails is the end of its input for `fscanf`
  diskInfoByDf : Loop.Ends DiskPrivate.dfStep ((fgets 256 fp).2.2.rest, [])
  diskIO : Loop.Ends DiskPrivate.ioStep
    (DiskPrivate.ioInit (fgets 1023 (fgets 1023 (fgets 1023 fp).2.2).2.2).2.2)

/-- All but the loop over `/proc/cpuinfo` end on every stream. -/
theorem loopsEnd_iff (text : Bytes) (ending : Ending) :
    LoopsEnd ⟨text, ending, false⟩ ↔
      ending = .eof ∨ 2 ≤ (CPUPrivate.marks (pieces 1023 text)).length := by
  rw [← CPUPrivate.ends_iff]
  constructor
  · intro h
    exact h.getCPUModelNameAndBaseClock
  · intro h
    exact ⟨MemoryPrivate.ends _, h, DiskPrivate.ends_df _, DiskPrivate.ends_io _⟩

/-- Nothing can be read, and nothing says that the file has ended. -/
theorem not_loopsEnd_error :
    ¬∀ (text : Bytes) (ending : Ending), LoopsEnd ⟨text, ending, false⟩ := by
  intro h
  have hends := (CPUPrivate.ends_iff [] .error).mp (h [] .error).getCPUModelNameAndBaseClock
  rw [pieces_nil] at hends
  exact absurd hends (by decide)

end ComputerMonitor
