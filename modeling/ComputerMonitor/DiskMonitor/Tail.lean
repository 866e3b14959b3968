import ComputerMonitor.DiskMonitor.Listing
import ComputerMonitor.DiskMonitor.Stores

/-! Listings of `df` with any text behind their rows. -/

namespace ComputerMonitor

open Bytes Scan Stdio

namespace DiskPrivate

theorem scan_space {b : UInt8} (hb : isSpace b = true) (s : Bytes) :
    (scan dfFormat (b :: s)).1 = (scan dfFormat s).1 ∧
      ((scan dfFormat s).1 ≠ [] → (scan dfFormat (b :: s)).2 = (scan dfFormat s).2) := by
  have hread := Conv.read_space hb .word s
  cases h : Conv.word.read s with
  | none =>
    rw [h] at hread
    rw [dfFormat, scan_fail h, scan_fail hread]
    exact ⟨rfl, fun hne => absurd rfl hne⟩
  | some r =>
    rw [h] at hread
    rw [dfFormat, scan_cons h, scan_cons hread]
    exact ⟨rfl, fun _ => rfl⟩

theorem dfScans_space {b : UInt8} (hb : isSpace b = true) (s : Bytes) :
    dfScans (b :: s) = dfScans s := by
  obtain ⟨hitems, hrest⟩ := scan_space hb s
  by_cases hlen : (scan dfFormat s).1.length = 6
  · have hne : (scan dfFormat s).1 ≠ [] := by
      intro hnil
      rw [hnil] at hlen
      cases hlen
    rw [dfScans_complete (hitems ▸ hlen), dfScans_complete hlen, hitems, hrest hne]
  · rw [dfScans_incomplete (hitems ▸ hlen), dfScans_incomplete hlen, hitems]

theorem dfScans_blank {ws : Bytes} (hws : Blank ws) (s : Bytes) :
    dfScans (ws ++ s) = dfScans s := by
  induction ws with
  | nil => rfl
  | cons b ws ih =>
    obtain ⟨hb, hws⟩ := (Blank.cons_iff b ws).mp hws
    rw [List.cons_append, dfScans_space hb, ih hws]

theorem itemsFit_nil : ∀ items ∈ dfScans [], ItemsFit dfSizes items := by
  rw [dfScans_incomplete (by decide), List.forall_mem_singleton]
  simp [dfFormat, scan_word_blank, ItemsFit]

/-- The first incomplete row ends the loop, and what it has stored is not used. -/
theorem dfStep_incomplete {s : Bytes} (hfits : ItemsFit dfSizes (scan dfFormat s).1)
    (hlen : (scan dfFormat s).1.length ≠ 6) (disks : List DFStructInfo) :
    dfStep (s, disks) = .inr (some disks) := by
  have hassign := (dfAssign_ne_none_iff (scanned_dfFormat s)).mpr hfits
  obtain ⟨v?, hv⟩ := Option.ne_none_iff_exists'.mp hassign
  cases v? with
  | none => simp [dfStep, hv]
  | some v => exact absurd (length_of_dfAssign hv) hlen

/-- Whatever the text, the disks that have been found stay in front. -/
theorem exists_returns_append (s : Bytes) (hfits : ∀ items ∈ dfScans s, ItemsFit dfSizes items) :
    ∃ rest, (Blank s → rest = []) ∧
      ∀ disks, Loop.Returns dfStep (s, disks) (some (disks ++ rest)) := by
  induction s using dfScans.induct with
  | case1 s hlen ih =>
    rw [dfScans_complete hlen, List.forall_mem_cons] at hfits
    obtain ⟨new, hstep⟩ := exists_dfStep_append hfits.1 hlen
    obtain ⟨rest, -, hreturns⟩ := ih hfits.2
    refine ⟨new ++ rest, ?_, ?_⟩
    · intro hblank
      rw [dfFormat, scan_word_blank hblank] at hlen
      cases hlen
    · intro disks
      rw [← List.append_assoc]
      exact .next (hstep disks) (hreturns _)
  | case2 s hlen =>
    rw [dfScans_incomplete hlen, List.forall_mem_singleton] at hfits
    refine ⟨[], fun _ => rfl, fun disks => ?_⟩
    rw [List.append_nil]
    exact .exit (dfStep_incomplete hfits hlen disks)

end DiskPrivate

/-- What a disk has of its row: the numbers, and of each word what a C string holds. -/
structure Carries (d : DFStructInfo) (r : DfRow) : Prop where
  fileSystem : d.fileSystem.str = cstr r.fileSystem.text
  blocks : d.blocks = .finite r.blocks.value
  used : d.used = .finite r.used.value
  available : d.available = .finite r.available.value
  useRate : d.useRate.str = cstr r.useRate.text
  mounted : d.mounted.str = cstr r.mounted

theorem DfRow.disk_carries {r : DfRow} (hsolid : Solid r.mounted) : Carries r.disk r where
  fileSystem := rfl
  blocks := rfl
  used := rfl
  available := rfl
  useRate := rfl
  mounted := by
    change cstr r.firstWord = cstr r.mounted
    rw [firstWord_eq hsolid]

namespace DiskPrivate

/-- The rows of the listing are read before what follows them. -/
theorem exists_goes_text (l : DfListing) (hsolid : ∀ r ∈ l.rows, Solid r.mounted) (tail : Bytes) :
    ∃ ws, Blank ws ∧ Loop.Goes dfStep ((fgets 256 (.ofText (l.text ++ tail))).2.2.rest, [])
      (ws ++ tail, l.devRows.map DfRow.disk) := by
  rw [l.fgets_text]
  exact DfListing.goes_unlines hsolid .nil tail []

theorem exists_diskInfoByDf_append (l : DfListing) (hsolid : ∀ r ∈ l.rows, Solid r.mounted)
    (tail : Bytes) (hfits : ∀ items ∈ dfScans tail, ItemsFit dfSizes items) :
    ∃ rest, diskInfoByDf (.ofText (l.text ++ tail)) = some (l.devRows.map DfRow.disk ++ rest) ∧
      (Blank tail → rest = []) := by
  obtain ⟨ws, hws, hgoes⟩ := exists_goes_text l hsolid tail
  rw [← dfScans_blank hws] at hfits
  obtain ⟨rest, hblank, hreturns⟩ := exists_returns_append (ws ++ tail) hfits
  refine ⟨rest, ?_, fun htail => hblank (hws.append htail)⟩
  rw [diskInfoByDf_eq_some_iff]
  exact hgoes.returns (hreturns _)

/-- A word that does not fit ends the loop without disks. -/
theorem returns_none_of_not_fits {s : Bytes × List DFStructInfo}
    (h : ¬∀ items ∈ dfScans s.1, ItemsFit dfSizes items) : Loop.Returns dfStep s none := by
  rw [← dfSafe_iff, DfSafe] at h
  push Not at h
  obtain ⟨t, hgoes, ht⟩ := h
  apply hgoes.returns
  apply Loop.Returns.exit
  have hassign : dfAssign (scan dfFormat t.1).1 = none := by
    by_contra hne
    obtain ⟨v, -, hv⟩ := ht hne
    simp [dfDisk_eq] at hv
  simp [dfStep, hassign]

theorem diskInfoByDf_append_eq_none (l : DfListing) (hsolid : ∀ r ∈ l.rows, Solid r.mounted)
    (tail : Bytes) (h : ¬∀ items ∈ dfScans tail, ItemsFit dfSizes items) :
    diskInfoByDf (.ofText (l.text ++ tail)) = none := by
  obtain ⟨ws, hws, hgoes⟩ := exists_goes_text l hsolid tail
  rw [← dfScans_blank hws] at h
  have hnone := hgoes.returns (returns_none_of_not_fits (s := (ws ++ tail, _)) h)
  rw [Option.eq_none_iff_forall_ne_some]
  intro disks hdisks
  rw [diskInfoByDf_eq_some_iff] at hdisks
  cases hnone.unique hdisks

/-- Whatever follows the rows of a listing, its disks come first and as they are, and blanks add
nothing to them. -/
theorem diskInfoByDf_append (l : DfListing) (hsolid : ∀ r ∈ l.rows, Solid r.mounted) (tail : Bytes)
    (hfits : ∀ items ∈ dfScans tail, ItemsFit dfSizes items) :
    ∃ disks rest, diskInfoByDf (.ofText (l.text ++ tail)) = some (disks ++ rest) ∧
      List.Forall₂ Carries disks l.devRows ∧
      ((∀ r ∈ l.devRows, r.NulFree) → List.Forall₂ Reports disks l.devRows) ∧
      (Blank tail → rest = []) := by
  obtain ⟨rest, hdisks, hblank⟩ := exists_diskInfoByDf_append l hsolid tail hfits
  have hrows : ∀ r ∈ l.devRows, Solid r.mounted :=
    fun r hr => hsolid r (DfListing.mem_of_mem_devRows hr)
  refine ⟨l.devRows.map DfRow.disk, rest, hdisks, ?_, ?_, hblank⟩
  · rw [List.forall₂_map_left_iff, List.forall₂_same]
    intro r hr
    exact DfRow.disk_carries (hrows r hr)
  · intro hnul
    rw [List.forall₂_map_left_iff, List.forall₂_same]
    intro r hr
    exact DfRow.disk_reports (hrows r hr) (hnul r hr)

/-- A row of `-` columns, and one for a disk that is not reached any more. -/
def dashes : Bytes := ascii "/dev/sdd - - - - /mnt/d\n/dev/sde 1 0 1 0% /mnt/e\n"

theorem diskInfoByDf_append_dashes :
    ∃ disks rest,
      diskInfoByDf (.ofText ((sampleListing [mydisk, other]).text ++ dashes)) =
        some (disks ++ rest) ∧
      List.Forall₂ Carries disks (sampleListing [mydisk, other]).devRows ∧
      ((∀ r ∈ (sampleListing [mydisk, other]).devRows, r.NulFree) →
        List.Forall₂ Reports disks (sampleListing [mydisk, other]).devRows) ∧
      (Blank dashes → rest = []) := by
  have hscan : (scan dfFormat dashes).1 = [.word (ascii "/dev/sdd")] := by decide +kernel
  refine diskInfoByDf_append (sampleListing [mydisk, other]) (by decide) dashes ?_
  rw [dfScans_incomplete (by simp [hscan]), hscan, List.forall_mem_singleton]
  simp [ItemsFit, ItemFits, dfSizes, ascii]

/-- A file system with a NUL in its name. -/
def nulDisk : DfRow :=
  sampleRow ⟨ascii "/dev/sdb" ++ [0], by decide, by decide⟩ (ascii "/mnt/mydisk")
    (by decide +kernel)

/-- The name of the disk ends before the NUL. -/
theorem diskInfoByDf_append_not_exact :
    ¬∀ (l : DfListing) (tail : Bytes), (∀ r ∈ l.rows, Solid r.mounted) →
      (∀ items ∈ dfScans tail, ItemsFit dfSizes items) →
        ∃ disks rest, diskInfoByDf (.ofText (l.text ++ tail)) = some (disks ++ rest) ∧
          List.Forall₂ Reports disks l.devRows ∧ (Blank tail → rest = []) := by
  intro h
  obtain ⟨disks, rest, -, hreports, -⟩ := h (sampleListing [nulDisk]) [] (by decide) itemsFit_nil
  have hmem : nulDisk ∈ (sampleListing [nulDisk]).devRows :=
    List.mem_filter.mpr ⟨by simp [sampleListing], by decide⟩
  obtain ⟨d, -, hd⟩ := exists_reports hreports hmem
  exact absurd hd.nulFree.fileSystem (by decide)

end DiskPrivate

end ComputerMonitor
