import ComputerMonitor.Support.Bytes

/-! Reading a C stream line by line. -/

namespace ComputerMonitor.Stdio

open Bytes

/-- What a read past the last byte meets: the end of the file, or an error that persists. -/
inductive Ending
  | eof
  | error
  deriving DecidableEq

structure Stream where
  rest : Bytes
  ending : Ending
  /-- The end-of-file flag, which only an attempt to read past the end sets. -/
  feof : Bool

def Stream.ofText (s : Bytes) : Stream := ⟨s, .eof, false⟩

/-- At most `n` bytes, up to and including the first newline. -/
def getline : ℕ → Bytes → Bytes × Bytes
  | 0, s => ([], s)
  | _ + 1, [] => ([], [])
  | n + 1, b :: s =>
    if b = newline then ([b], s) else (b :: (getline n s).1, (getline n s).2)

/-- `fgets(buf, size, fp)`: whether it returned the buffer, the bytes it put there, the stream
after it.  A read error makes it return NULL even when bytes have been read. -/
def fgets (size : ℕ) (fp : Stream) : Bool × Bytes × Stream :=
  let (line, rest) := getline (size - 1) fp.rest
  if line.length = size - 1 ∨ line.getLast? = some newline then (true, line, { fp with rest })
  else match fp.ending with
    | .eof => (line ≠ [], line, { fp with rest, feof := true })
    | .error => (false, line, { fp with rest })

theorem fgets_rest (size : ℕ) (fp : Stream) :
    (fgets size fp).2.2.rest = (getline (size - 1) fp.rest).2 := by
  by_cases hfull : (getline (size - 1) fp.rest).1.length = size - 1 ∨
      (getline (size - 1) fp.rest).1.getLast? = some newline
  · simp [fgets, hfull]
  · cases hend : fp.ending <;> simp [fgets, hfull, hend]

theorem fgets_bytes (size : ℕ) (fp : Stream) :
    (fgets size fp).2.1 = (getline (size - 1) fp.rest).1 := by
  by_cases hfull : (getline (size - 1) fp.rest).1.length = size - 1 ∨
      (getline (size - 1) fp.rest).1.getLast? = some newline
  · simp [fgets, hfull]
  · cases hend : fp.ending <;> simp [fgets, hfull, hend]

@[simp] theorem getline_nil (n : ℕ) : getline n [] = ([], []) := by
  cases n <;> rfl

theorem getline_append (n : ℕ) (s : Bytes) : (getline n s).1 ++ (getline n s).2 = s := by
  induction n generalizing s with
  | zero => rfl
  | succ n ih =>
    cases s with
    | nil => rfl
    | cons b s =>
      rw [getline]
      split
      · rfl
      · simp [ih]

theorem length_getline_lt {n : ℕ} {s : Bytes} (hn : 0 < n) (hs : s ≠ []) :
    (getline n s).2.length < s.length := by
  obtain ⟨n, rfl⟩ : ∃ m, n = m + 1 := ⟨n - 1, by omega⟩
  obtain ⟨b, s, rfl⟩ := List.exists_cons_of_ne_nil hs
  rw [getline]
  split
  · simp
  · simp only [List.length_cons]
    have happ := congrArg List.length (getline_append n s)
    rw [List.length_append] at happ
    omega

theorem getline_line {n : ℕ} {line : Bytes} (h : newline ∉ line) (hn : line.length < n)
    (rest : Bytes) : getline n (line ++ newline :: rest) = (line ++ [newline], rest) := by
  induction line generalizing n with
  | nil =>
    cases n with
    | zero => cases hn
    | succ n => simp [getline]
  | cons b line ih =>
    cases n with
    | zero => cases hn
    | succ n =>
      rw [List.mem_cons, not_or] at h
      have := ih h.2 (by simpa using hn)
      rw [List.cons_append, getline, if_neg (Ne.symm h.1), this]
      rfl

theorem getline_last {n : ℕ} {line : Bytes} (h : newline ∉ line) (hn : line.length ≤ n) :
    getline n line = (line, []) := by
  induction line generalizing n with
  | nil => cases n <;> rfl
  | cons b line ih =>
    cases n with
    | zero => simp at hn
    | succ n =>
      rw [List.mem_cons, not_or] at h
      have := ih h.2 (by simpa using hn)
      rw [getline, if_neg (Ne.symm h.1), this]

/-- A run without newlines that fits the buffer is read whole, with what follows it. -/
theorem getline_run {n : ℕ} {run : Bytes} (h : newline ∉ run) (hn : run.length ≤ n)
    (rest : Bytes) :
    getline n (run ++ rest) =
      (run ++ (getline (n - run.length) rest).1, (getline (n - run.length) rest).2) := by
  induction run generalizing n with
  | nil => simp
  | cons b run ih =>
    cases n with
    | zero => simp at hn
    | succ n =>
      rw [List.mem_cons, not_or] at h
      have := ih h.2 (by simpa using hn)
      rw [List.cons_append, getline, if_neg (Ne.symm h.1), this]
      simp

/-- A terminated line that fits the buffer is read whole. -/
theorem fgets_line {size : ℕ} {line : Bytes} (h : newline ∉ line) (hn : line.length + 1 < size)
    (rest : Bytes) (e : Ending) (f : Bool) :
    fgets size ⟨line ++ newline :: rest, e, f⟩ = (true, line ++ [newline], ⟨rest, e, f⟩) := by
  simp [fgets, getline_line h (show line.length < size - 1 by omega)]

/-- Before the end of the file `fgets` always finds something to return. -/
theorem fgets_text {size : ℕ} {s : Bytes} (hs : s ≠ []) (hn : 1 < size) (f : Bool) :
    ∃ fp, fgets size ⟨s, .eof, f⟩ = (true, (getline (size - 1) s).1, fp) := by
  obtain ⟨n, rfl⟩ : ∃ n, size = n + 2 := ⟨size - 2, by omega⟩
  obtain ⟨b, s, rfl⟩ := List.exists_cons_of_ne_nil hs
  have hne : (getline (n + 1) (b :: s)).1 ≠ [] := by
    rw [getline]
    split <;> simp
  by_cases hfull : (getline (n + 1) (b :: s)).1.length = n + 1 ∨
      (getline (n + 1) (b :: s)).1.getLast? = some newline
  · simp [fgets, hfull]
  · simp [fgets, hfull, hne]

/-- A read that stops short of the buffer's end has met no newline and leaves nothing. -/
theorem getline_short {n : ℕ} {s : Bytes} (hn : (getline n s).1.length ≠ n)
    (hlast : (getline n s).1.getLast? ≠ some newline) : (getline n s).2 = [] := by
  induction n generalizing s with
  | zero => simp [getline] at hn
  | succ n ih =>
    cases s with
    | nil => rfl
    | cons b s =>
      rw [getline] at hn hlast ⊢
      by_cases hb : b = newline
      · simp [hb] at hlast
      · simp only [hb, if_false, List.length_cons, ne_eq, Nat.add_right_cancel_iff] at hn hlast ⊢
        refine ih hn fun h => hlast ?_
        rw [List.getLast?_cons, h, Option.getD_some]

/-- A successful `fgets` consumes something. -/
theorem fgets_ok_lt {size : ℕ} {fp : Stream} (hn : 1 < size) (h : (fgets size fp).1 = true) :
    (fgets size fp).2.2.rest.length < fp.rest.length := by
  obtain ⟨n, rfl⟩ : ∃ n, size = n + 2 := ⟨size - 2, by omega⟩
  obtain ⟨rest, ending, f⟩ := fp
  cases rest with
  | nil => cases ending <;> simp [fgets] at h
  | cons b s =>
    rw [fgets_rest]
    exact length_getline_lt (by omega) (by simp)

/-- At the end of the file nothing is read and the flag is set. -/
theorem fgets_eof {size : ℕ} (hn : 1 < size) (f : Bool) :
    fgets size ⟨[], .eof, f⟩ = (false, [], ⟨[], .eof, true⟩) := by
  obtain ⟨n, rfl⟩ : ∃ n, size = n + 2 := ⟨size - 2, by omega⟩
  simp [fgets]

/-- A stream over a text, whose flag is set only when nothing is left. -/
structure OnText (fp : Stream) : Prop where
  ending : fp.ending = .eof
  flag : fp.feof = true → fp.rest = []

theorem OnText.ofText (s : Bytes) : OnText (.ofText s) := ⟨rfl, by simp [Stream.ofText]⟩

theorem OnText.fgets {fp : Stream} (h : OnText fp) (size : ℕ) : OnText (fgets size fp).2.2 := by
  obtain ⟨rest, ending, feof⟩ := fp
  obtain ⟨heof, hflag⟩ := h
  cases heof
  by_cases hfull : (getline (size - 1) rest).1.length = size - 1 ∨
      (getline (size - 1) rest).1.getLast? = some newline
  · refine ⟨by simp [Stdio.fgets, hfull], fun hfeof => ?_⟩
    have hrest : rest = [] := hflag (by simpa [Stdio.fgets, hfull] using hfeof)
    rw [fgets_rest, hrest, getline_nil]
  · rw [not_or] at hfull
    refine ⟨by simp [Stdio.fgets, hfull], fun _ => ?_⟩
    rw [fgets_rest]
    exact getline_short hfull.1 hfull.2

theorem OnText.fgets_ok {fp : Stream} (h : OnText fp) (hrest : fp.rest ≠ []) {size : ℕ}
    (hn : 1 < size) : (Stdio.fgets size fp).1 = true := by
  obtain ⟨rest, ending, feof⟩ := fp
  cases h.ending
  obtain ⟨fp, hfp⟩ := fgets_text hrest hn feof
  rw [hfp]

/-- A stream whose last read fails, which does not set the flag. -/
structure Failing (fp : Stream) : Prop where
  ending : fp.ending = .error
  flag : fp.feof = false

theorem Failing.fgets {fp : Stream} (h : Failing fp) (size : ℕ) :
    Failing (fgets size fp).2.2 := by
  obtain ⟨rest, ending, feof⟩ := fp
  cases h.ending
  have hflag : feof = false := h.flag
  by_cases hfull : (getline (size - 1) rest).1.length = size - 1 ∨
      (getline (size - 1) rest).1.getLast? = some newline
  · constructor <;> simp [Stdio.fgets, hfull, hflag]
  · constructor <;> simp [Stdio.fgets, hfull, hflag]

theorem OnText.fgets_nil {fp : Stream} (h : OnText fp) (hrest : fp.rest = []) {size : ℕ}
    (hn : 1 < size) : (Stdio.fgets size fp).1 = false := by
  obtain ⟨rest, ending, feof⟩ := fp
  cases h.ending
  cases hrest
  rw [fgets_eof hn]

/-- How often a loop can still call `fgets` before it sees the end of the file. -/
def callsLeft (fp : Stream) : ℕ := fp.rest.length + if fp.feof then 0 else 1

theorem OnText.callsLeft_lt {fp : Stream} (h : OnText fp) (hfeof : fp.feof = false) {size : ℕ}
    (hn : 1 < size) : callsLeft (Stdio.fgets size fp).2.2 < callsLeft fp := by
  by_cases hrest : fp.rest = []
  · obtain ⟨rest, ending, feof⟩ := fp
    cases h.ending
    cases hrest
    rw [fgets_eof hn]
    simp_all [callsLeft]
  · have hlt := length_getline_lt (n := size - 1) (by omega) hrest
    simp only [callsLeft, fgets_rest, hfeof, Bool.false_eq_true, if_false]
    split_ifs <;> omega

/-- What successive calls of `fgets(buf, size, fp)` take from a text. -/
def pieces (size : ℕ) (s : Bytes) : List Bytes :=
  if h : 1 < size ∧ s ≠ [] then
    (getline (size - 1) s).1 :: pieces size (getline (size - 1) s).2
  else []
termination_by s.length
decreasing_by exact length_getline_lt (by omega) h.2

@[simp] theorem pieces_nil (size : ℕ) : pieces size [] = [] := by
  rw [pieces, dif_neg (by simp)]

theorem pieces_of_ne_nil {size : ℕ} {s : Bytes} (hn : 1 < size) (hs : s ≠ []) :
    pieces size s = (getline (size - 1) s).1 :: pieces size (getline (size - 1) s).2 := by
  rw [pieces, dif_pos ⟨hn, hs⟩]

theorem pieces_eq_nil_iff {size : ℕ} (hn : 1 < size) {s : Bytes} : pieces size s = [] ↔ s = [] := by
  constructor
  · intro h
    by_contra hs
    rw [pieces_of_ne_nil hn hs] at h
    cases h
  · rintro rfl
    exact pieces_nil size

/-- Lines that fit the buffer are taken one by one. -/
theorem pieces_line {size : ℕ} {line : Bytes} (h : newline ∉ line) (hn : line.length + 1 < size)
    (rest : Bytes) :
    pieces size (line ++ newline :: rest) = (line ++ [newline]) :: pieces size rest := by
  rw [pieces_of_ne_nil (by omega) (by simp), getline_line h (by omega)]

theorem pieces_fgets {size : ℕ} (hn : 1 < size) (fp : Stream) :
    pieces size (fgets size fp).2.2.rest = (pieces size fp.rest).tail := by
  rw [fgets_rest]
  by_cases hs : fp.rest = []
  · simp [hs]
  · rw [pieces_of_ne_nil hn hs, List.tail_cons]

/-- A successful `fgets` takes the first piece. -/
theorem pieces_of_fgets {size : ℕ} (hn : 1 < size) {fp : Stream} (h : (fgets size fp).1 = true) :
    pieces size fp.rest = (fgets size fp).2.1 :: pieces size (fgets size fp).2.2.rest := by
  have hne : fp.rest ≠ [] := by
    intro hnil
    have hlt := fgets_ok_lt hn h
    simp [hnil] at hlt
  rw [fgets_bytes, fgets_rest, pieces_of_ne_nil hn hne]

/-- Before the end of the file `fgets` finds the first piece. -/
theorem OnText.fgets_pieces {size : ℕ} (hn : 1 < size) {fp : Stream} (h : OnText fp) {line : Bytes}
    {lines : List Bytes} (hpieces : pieces size fp.rest = line :: lines) :
    (Stdio.fgets size fp).1 = true ∧ (Stdio.fgets size fp).2.1 = line ∧
      pieces size (Stdio.fgets size fp).2.2.rest = lines := by
  have hne : fp.rest ≠ [] := by
    intro hnil
    rw [hnil, pieces_nil] at hpieces
    cases hpieces
  have hok := h.fgets_ok hne hn
  rw [pieces_of_fgets hn hok, List.cons.injEq] at hpieces
  exact ⟨hok, hpieces⟩

/-- The lines of a document, each ended by a newline. -/
def unlines (ls : List Bytes) : Bytes := ls.flatMap fun l => l ++ [newline]

@[simp] theorem unlines_nil : unlines [] = [] := rfl

@[simp] theorem unlines_cons (l : Bytes) (ls : List Bytes) :
    unlines (l :: ls) = l ++ newline :: unlines ls := by
  simp [unlines]

@[simp] theorem unlines_append (ls ms : List Bytes) :
    unlines (ls ++ ms) = unlines ls ++ unlines ms := by
  simp [unlines]

theorem pieces_unlines {size : ℕ} {ls : List Bytes}
    (h : ∀ l ∈ ls, newline ∉ l ∧ l.length + 1 < size) (rest : Bytes) :
    pieces size (unlines ls ++ rest) = ls.map (· ++ [newline]) ++ pieces size rest := by
  induction ls with
  | nil => rfl
  | cons l ls ih =>
    obtain ⟨hline, hfits⟩ := h l (by simp)
    rw [unlines_cons, List.append_assoc, List.cons_append, pieces_line hline hfits,
      ih fun k hk => h k (by simp [hk])]
    rfl

end ComputerMonitor.Stdio
