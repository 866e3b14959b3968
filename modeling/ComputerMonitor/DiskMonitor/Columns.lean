import ComputerMonitor.DiskMonitor.Stores
import ComputerMonitor.Support.Words

/-! The text that `df` prints as words in columns, six to a row, and the widths of the arrays. -/

namespace ComputerMonitor

open Bytes Scan Stdio

namespace DiskPrivate

/-- The size of the array for a place, if it is not one of the three for numbers. -/
def column (k : ℕ) : Option ℕ := dfSizes.getD (k % 6) none

/-- From place `k` on, every word that stands in a column of an array is shorter than the array, up
to a word in a column of numbers that does not begin with one. -/
inductive ColumnsFit : ℕ → List Bytes → Prop
  | nil (k : ℕ) : ColumnsFit k []
  | word {k n : ℕ} {w : Bytes} {ws : List Bytes} : column k = some n → w.length < n →
      ColumnsFit (k + 1) ws → ColumnsFit k (w :: ws)
  | number {k : ℕ} {w u : Bytes} {ws : List Bytes} {x : Double} : column k = none →
      readDouble w = some (x, u) → ColumnsFit (k + 1) (remainder u ws) → ColumnsFit k (w :: ws)
  | noNumber {k : ℕ} {w : Bytes} {ws : List Bytes} : column k = none → readDouble w = none →
      ColumnsFit k (w :: ws)

theorem columnsFit_word_iff {k n : ℕ} {w : Bytes} {ws : List Bytes} (h : column k = some n) :
    ColumnsFit k (w :: ws) ↔ w.length < n ∧ ColumnsFit (k + 1) ws := by
  constructor
  · intro hfits
    cases hfits with
    | word hcolumn hlt hws =>
      rw [h, Option.some.injEq] at hcolumn
      exact ⟨hcolumn ▸ hlt, hws⟩
    | number hcolumn => simp [h] at hcolumn
    | noNumber hcolumn => simp [h] at hcolumn
  · rintro ⟨hlt, hws⟩
    exact .word h hlt hws

theorem columnsFit_number_iff {k : ℕ} {w u : Bytes} {ws : List Bytes} {x : Double}
    (h : column k = none) (hw : readDouble w = some (x, u)) :
    ColumnsFit k (w :: ws) ↔ ColumnsFit (k + 1) (remainder u ws) := by
  constructor
  · intro hfits
    cases hfits with
    | word hcolumn => simp [h] at hcolumn
    | number _ hread hws =>
      rw [hw, Option.some.injEq, Prod.mk.injEq] at hread
      exact hread.2 ▸ hws
    | noNumber _ hread => simp [hw] at hread
  · exact .number h hw

/-- Only the place in the row matters. -/
theorem ColumnsFit.congr {k : ℕ} {ws : List Bytes} (h : ColumnsFit k ws) {j : ℕ}
    (hj : j % 6 = k % 6) : ColumnsFit j ws := by
  have hcolumn : ∀ {j k : ℕ}, j % 6 = k % 6 → column j = column k := fun h => by
    rw [column, column, h]
  induction h generalizing j with
  | nil k => exact .nil j
  | word hk hlt _ ih => exact .word ((hcolumn hj).trans hk) hlt (ih (by omega))
  | number hk hw _ ih => exact .number ((hcolumn hj).trans hk) hw (ih (by omega))
  | noNumber hk hw => exact .noNumber ((hcolumn hj).trans hk) hw

theorem columnsFit_six_iff {ws : List Bytes} : ColumnsFit 6 ws ↔ ColumnsFit 0 ws :=
  ⟨fun h => h.congr rfl, fun h => h.congr rfl⟩

/-! ### The scans of a text -/

/-- The conversion for a column. -/
def columnConv : Option ℕ → Conv
  | some _ => .word
  | none => .double

theorem map_columnConv : dfSizes.map columnConv = dfFormat := rfl

theorem itemsFit_cons {i : Item} {items : List Item} {size : Option ℕ} {sizes : List (Option ℕ)} :
    ItemsFit (size :: sizes) (i :: items) ↔ ItemFits i size ∧ ItemsFit sizes items := by
  rw [ItemsFit, List.zip_cons_cons, List.forall_mem_cons]
  rfl

/-- The rest of a row, in columns and as a scan. -/
theorem columnsFit_iff_scan {k : ℕ} {sizes : List (Option ℕ)} (hk : k + sizes.length = 6)
    (hsizes : dfSizes.drop k = sizes) (s : Bytes) :
    ColumnsFit k (words s) ↔ ItemsFit sizes (scan (sizes.map columnConv) s).1 ∧
      ((scan (sizes.map columnConv) s).1.length = sizes.length →
        ColumnsFit 6 (words (scan (sizes.map columnConv) s).2)) := by
  induction sizes generalizing k s with
  | nil =>
    obtain rfl : k = 6 := by simpa using hk
    simp [scan, ItemsFit]
  | cons size sizes ih =>
    rw [List.length_cons] at hk
    have hcolumn : column k = size := by
      have hhead := congrArg List.head? hsizes
      rw [List.head?_drop, List.head?_cons] at hhead
      rw [column, Nat.mod_eq_of_lt (by omega), List.getD_eq_getElem?_getD, hhead, Option.getD_some]
    have hnext : dfSizes.drop (k + 1) = sizes := by
      rw [← List.drop_drop, hsizes, List.drop_one, List.tail_cons]
    cases hs : readWord s with
    | none =>
      -- there are only blanks left
      have hread : (columnConv size).read s = none := by
        cases size with
        | none => rw [columnConv, Conv.read, readDouble_of_readWord_none hs, Option.map_none]
        | some n => rw [columnConv, Conv.read, hs, Option.map_none]
      rw [words_of_readWord_none hs, List.map_cons, scan_fail hread]
      simp [ItemsFit, ColumnsFit.nil]
    | some p =>
      obtain ⟨w, t⟩ := p
      rw [words_of_readWord hs]
      cases size with
      | some n =>
        have hread : (columnConv (some n)).read s = some ([.word w], t) := by
          rw [columnConv, Conv.read, hs, Option.map_some]
        rw [columnsFit_word_iff hcolumn, ih (by omega) hnext t, List.map_cons, scan_cons hread,
          List.singleton_append, itemsFit_cons, List.length_cons, List.length_cons,
          Nat.add_right_cancel_iff, and_assoc]
        rfl
      | none =>
        cases hw : readDouble w with
        | none =>
          have hread : (columnConv none).read s = none := by
            rw [columnConv, Conv.read, readDouble_of_readWord hs, hw, Option.map_none,
              Option.map_none]
          rw [List.map_cons, scan_fail hread]
          simp [ItemsFit, ColumnsFit.noNumber hcolumn hw]
        | some q =>
          obtain ⟨x, u⟩ := q
          have hread : (columnConv none).read s = some ([.double x], u ++ t) := by
            rw [columnConv, Conv.read, readDouble_of_readWord hs, hw]
            rfl
          rw [columnsFit_number_iff hcolumn hw, ← words_remainder hs hw, ih (by omega) hnext,
            List.map_cons, scan_cons hread, List.singleton_append, itemsFit_cons, List.length_cons,
            List.length_cons, Nat.add_right_cancel_iff, and_iff_right (itemFits_none _)]

theorem columnsFit_iff (s : Bytes) :
    ColumnsFit 0 (words s) ↔ ∀ items ∈ dfScans s, ItemsFit dfSizes items := by
  induction s using dfScans.induct with
  | case1 s hlen ih =>
    have hrow := columnsFit_iff_scan (k := 0) rfl rfl s
    rw [List.drop_zero, map_columnConv] at hrow
    rw [hrow, dfScans_complete hlen, List.forall_mem_cons, ← ih, columnsFit_six_iff]
    exact and_congr_right fun _ => forall_prop_of_true hlen
  | case2 s hlen =>
    have hrow := columnsFit_iff_scan (k := 0) rfl rfl s
    rw [List.drop_zero, map_columnConv] at hrow
    rw [hrow, dfScans_incomplete hlen, List.forall_mem_singleton, and_iff_left_iff_imp]
    exact fun _ hsix => absurd hsix hlen

/-! ### Tables -/

/-- Six words with numbers in the columns of numbers. -/
structure TableRow where
  fileSystem : Bytes
  blocks : Bytes
  used : Bytes
  available : Bytes
  useRate : Bytes
  mountedOn : Bytes
  numbers : ∀ w ∈ [blocks, used, available], IsNumber w

namespace TableRow

def words (r : TableRow) : List Bytes :=
  [r.fileSystem, r.blocks, r.used, r.available, r.useRate, r.mountedOn]

/-- The widths of the columns. -/
structure Fits (r : TableRow) : Prop where
  fileSystem : r.fileSystem.length < 80
  useRate : r.useRate.length < 10
  mountedOn : r.mountedOn.length < 80

end TableRow

theorem columnsFit_isNumber {k : ℕ} {w : Bytes} {ws : List Bytes} (h : column k = none)
    (hw : IsNumber w) : ColumnsFit k (w :: ws) ↔ ColumnsFit (k + 1) ws := by
  obtain ⟨x, hx⟩ := hw
  rw [columnsFit_number_iff h hx, remainder, if_pos rfl]

theorem columnsFit_row (r : TableRow) (ws : List Bytes) :
    ColumnsFit 0 (r.words ++ ws) ↔ r.Fits ∧ ColumnsFit 0 ws := by
  obtain ⟨hblocks, hused, havailable⟩ : IsNumber r.blocks ∧ IsNumber r.used ∧
      IsNumber r.available := by simpa using r.numbers
  have hfits : r.Fits ↔ r.fileSystem.length < 80 ∧ r.useRate.length < 10 ∧
      r.mountedOn.length < 80 :=
    ⟨fun h => ⟨h.fileSystem, h.useRate, h.mountedOn⟩, fun h => ⟨h.1, h.2.1, h.2.2⟩⟩
  simp only [TableRow.words, List.cons_append, List.nil_append]
  rw [columnsFit_word_iff rfl, columnsFit_isNumber rfl hblocks, columnsFit_isNumber rfl hused,
    columnsFit_isNumber rfl havailable, columnsFit_word_iff rfl, columnsFit_word_iff rfl,
    columnsFit_six_iff, hfits]
  tauto

/-- In a table the condition is one on the widths of its columns. -/
theorem columnsFit_rows (rows : List TableRow) :
    ColumnsFit 0 (rows.flatMap TableRow.words) ↔ ∀ r ∈ rows, r.Fits := by
  induction rows with
  | nil => simp [ColumnsFit.nil]
  | cons r rows ih => rw [List.flatMap_cons, columnsFit_row, List.forall_mem_cons, ih]

/-! ### Both outputs -/

/-- An overlay mounted on a path of 80 bytes: with the terminating zero, one more than its array
has. -/
def longMount : Bytes :=
  newline :: ascii "overlay 1 0 1 0% " ++ 0x2f :: List.replicate 79 0x61

end DiskPrivate

end ComputerMonitor
