import ComputerMonitor.DiskMonitor

/-! Listings of `df` and the disks that `DiskInfoByDf` reads off them. -/

namespace ComputerMonitor

open Bytes Scan Stdio

/-- A row of `df`: five columns without blanks, and the mount point with the rest of the line. -/
structure DfRow where
  fileSystem : Word
  blocks : Decimal
  used : Decimal
  available : Decimal
  useRate : Word
  mounted : Bytes
  gap : Fin 5 → Gap
  mounted_ne : mounted ≠ []
  mounted_inLine : newline ∉ mounted
  mounted_head : ∀ b ∈ mounted.head?, isSpace b = false
  mounted_last : ∀ b ∈ mounted.getLast?, isSpace b = false
  fileSystem_fits : fileSystem.text.length < 80
  useRate_fits : useRate.text.length < 10
  mounted_fits : mounted.length < 80

namespace DfRow

def text (r : DfRow) : Bytes :=
  r.fileSystem.text ++ ((r.gap 0).text ++ (r.blocks.text ++ ((r.gap 1).text ++ (r.used.text ++
    ((r.gap 2).text ++ (r.available.text ++ ((r.gap 3).text ++ (r.useRate.text ++
      ((r.gap 4).text ++ r.mounted)))))))))

/-- The part of the mount point that `%s` takes. -/
def firstWord (r : DfRow) : Bytes := r.mounted.takeWhile fun b => !isSpace b

/-- What it leaves for the next row. -/
def leftover (r : DfRow) : Bytes := r.mounted.dropWhile fun b => !isSpace b

def OnDev (r : DfRow) : Prop := ascii "/dev/" <+: r.fileSystem.text

instance (r : DfRow) : Decidable r.OnDev := inferInstanceAs (Decidable (_ <+: _))

theorem firstWord_ne (r : DfRow) : r.firstWord ≠ [] := by
  cases hm : r.mounted with
  | nil => exact absurd hm r.mounted_ne
  | cons b s =>
    have hb : isSpace b = false := r.mounted_head b (by simp [hm])
    simp [firstWord, hm, hb]

theorem firstWord_solid (r : DfRow) : Solid r.firstWord := by
  intro b hb
  simpa using List.mem_takeWhile_imp hb

theorem firstWord_append_leftover (r : DfRow) : r.firstWord ++ r.leftover = r.mounted :=
  List.takeWhile_append_dropWhile

theorem leftover_ends (r : DfRow) : Ends r.leftover := stops_dropWhile _ _

theorem firstWord_fits (r : DfRow) : r.firstWord.length < 80 :=
  (List.takeWhile_prefix _).length_le.trans_lt r.mounted_fits

theorem firstWord_eq {r : DfRow} (h : Solid r.mounted) : r.firstWord = r.mounted := by
  rw [firstWord, List.takeWhile_eq_self_iff]
  intro b hb
  simp [h b hb]

theorem leftover_eq_nil {r : DfRow} (h : Solid r.mounted) : r.leftover = [] := by
  have happ := r.firstWord_append_leftover
  rw [firstWord_eq h] at happ
  simpa using happ

/-- The array contents a row is scanned to. -/
def disk (r : DfRow) : DFStructInfo where
  fileSystem := ⟨cstr r.fileSystem.text, zero_notMem_cstr _,
    (length_cstr_le _).trans_lt r.fileSystem_fits⟩
  blocks := .finite r.blocks.value
  used := .finite r.used.value
  available := .finite r.available.value
  useRate := ⟨cstr r.useRate.text, zero_notMem_cstr _, (length_cstr_le _).trans_lt r.useRate_fits⟩
  mounted := ⟨cstr r.firstWord, zero_notMem_cstr _, (length_cstr_le _).trans_lt r.firstWord_fits⟩

/-- Wherever a row starts, the six conversions take its first five columns and one word of its mount
point. -/
theorem scan_text (r : DfRow) {ws rest : Bytes} (hws : Blank ws) (hrest : Ends rest) :
    scan DiskPrivate.dfFormat (ws ++ (r.text ++ rest)) =
      ([.word r.fileSystem.text, .double (.finite r.blocks.value),
        .double (.finite r.used.value), .double (.finite r.available.value),
        .word r.useRate.text, .word r.firstWord], r.leftover ++ rest) := by
  have hend : Ends (r.leftover ++ rest) := by
    cases hl : r.leftover with
    | nil => exact hrest
    | cons b s =>
      have h := r.leftover_ends
      rw [hl] at h
      exact h.append (by simp)
  simp only [DiskPrivate.dfFormat, text, List.append_assoc]
  rw [scan_cons (read_word hws r.fileSystem.solid r.fileSystem.ne ((r.gap 0).ends _)),
    scan_cons (read_double (r.gap 0).blank r.blocks ((r.gap 1).ends _)),
    scan_cons (read_double (r.gap 1).blank r.used ((r.gap 2).ends _)),
    scan_cons (read_double (r.gap 2).blank r.available ((r.gap 3).ends _)),
    scan_cons (read_word (r.gap 3).blank r.useRate.solid r.useRate.ne ((r.gap 4).ends _)),
    ← r.firstWord_append_leftover, List.append_assoc,
    scan_cons (read_word (r.gap 4).blank r.firstWord_solid r.firstWord_ne hend)]
  simp [scan]

/-- The round of the loop that reads a row. -/
theorem dfStep_text (r : DfRow) {ws rest : Bytes} (hws : Blank ws) (hrest : Ends rest)
    (disks : List DFStructInfo) :
    DiskPrivate.dfStep (ws ++ (r.text ++ rest), disks) =
      .inl (r.leftover ++ rest, if r.OnDev then disks ++ [r.disk] else disks) := by
  have hdev : strncmpEq (ascii "/dev/") r.disk.fileSystem.str 5 = true ↔ r.OnDev := by
    rw [disk, strncmpEq_cstr]
    exact strncmpEq_iff_isPrefix (by decide)
  have hassign : DiskPrivate.dfAssign [.word r.fileSystem.text, .double (.finite r.blocks.value),
      .double (.finite r.used.value), .double (.finite r.available.value),
      .word r.useRate.text, .word r.firstWord] = some (some ⟨r.disk.fileSystem, r.disk.blocks,
        r.disk.used, r.disk.available, r.disk.useRate, r.disk.mounted⟩) := by
    simp [DiskPrivate.dfAssign, CharArray.store_eq_some, r.fileSystem_fits, r.useRate_fits,
      r.firstWord_fits, disk]
  simp only [DiskPrivate.dfStep, r.scan_text hws hrest, hassign, DiskPrivate.dfDisk_eq, hdev]
  split_ifs <;> rfl

end DfRow

/-- The output of `df`: a header and rows. -/
structure DfListing where
  header : Bytes
  rows : List DfRow
  header_inLine : newline ∉ header
  header_fits : header.length < 255

namespace DfListing

def text (l : DfListing) : Bytes := unlines (l.header :: l.rows.map DfRow.text)

/-- The rows `DiskInfoByDf` is after. -/
def devRows (l : DfListing) : List DfRow := l.rows.filter fun r => r.OnDev

/-- Rows whose mount points are single words are read one by one, whatever follows them. -/
theorem goes_unlines {rows : List DfRow} (h : ∀ r ∈ rows, Solid r.mounted) {ws : Bytes}
    (hws : Blank ws) (rest : Bytes) (disks : List DFStructInfo) :
    ∃ ws', Blank ws' ∧
      Loop.Goes DiskPrivate.dfStep (ws ++ (unlines (rows.map DfRow.text) ++ rest), disks)
        (ws' ++ rest, disks ++ (rows.filter fun r => r.OnDev).map DfRow.disk) := by
  induction rows generalizing ws disks with
  | nil => exact ⟨ws, hws, by simpa using Loop.Goes.refl _⟩
  | cons r rows ih =>
    have hends : Ends (newline :: (unlines (rows.map DfRow.text) ++ rest)) := by
      simp [isSpace, newline]
    have hstep := r.dfStep_text hws hends disks
    rw [DfRow.leftover_eq_nil (h r (by simp)), List.nil_append] at hstep
    have hnl : Blank [newline] := by simp [isSpace, newline]
    obtain ⟨ws', hws', hgoes⟩ := ih (fun r hr => h r (by simp [hr])) hnl
      (if r.OnDev then disks ++ [r.disk] else disks)
    refine ⟨ws', hws', ?_⟩
    rw [List.map_cons, unlines_cons, List.append_assoc, List.cons_append]
    apply Loop.Goes.head hstep
    by_cases hdev : r.OnDev <;> simpa [hdev] using hgoes

/-- What the loop starts with: the text behind the header. -/
theorem fgets_text (l : DfListing) (rest : Bytes) :
    (fgets 256 (.ofText (l.text ++ rest))).2.2.rest =
      unlines (l.rows.map DfRow.text) ++ rest := by
  rw [text, unlines_cons, List.append_assoc, List.cons_append, Stream.ofText,
    fgets_line l.header_inLine (by have := l.header_fits; omega)]

/-- With single words as mount points every row on a device yields one disk. -/
theorem diskInfoByDf_text (l : DfListing) (h : ∀ r ∈ l.rows, Solid r.mounted) :
    DiskPrivate.diskInfoByDf (.ofText l.text) = some (l.devRows.map DfRow.disk) := by
  obtain ⟨ws, hws, hgoes⟩ := goes_unlines h .nil [] []
  rw [DiskPrivate.diskInfoByDf_eq_some_iff, ← List.append_nil l.text, l.fgets_text]
  apply hgoes.returns
  apply Loop.Returns.exit
  simp [DiskPrivate.dfStep, DiskPrivate.dfFormat, scan_word_blank hws, DiskPrivate.dfAssign,
    devRows]

end DfListing

/-- A disk reports a row: it has the row's columns, the mount point whole. -/
structure Reports (d : DFStructInfo) (r : DfRow) : Prop where
  fileSystem : d.fileSystem.str = r.fileSystem.text
  blocks : d.blocks = .finite r.blocks.value
  used : d.used = .finite r.used.value
  available : d.available = .finite r.available.value
  useRate : d.useRate.str = r.useRate.text
  mounted : d.mounted.str = r.mounted

/-- No column of the row holds a NUL, which would end the C string it is stored as. -/
structure DfRow.NulFree (r : DfRow) : Prop where
  fileSystem : 0 ∉ r.fileSystem.text
  useRate : 0 ∉ r.useRate.text
  mounted : 0 ∉ r.mounted

theorem DfRow.disk_reports {r : DfRow} (hsolid : Solid r.mounted) (hnul : r.NulFree) :
    Reports r.disk r where
  fileSystem := cstr_of_notMem hnul.fileSystem
  blocks := rfl
  used := rfl
  available := rfl
  useRate := cstr_of_notMem hnul.useRate
  mounted := by
    change cstr r.firstWord = r.mounted
    rw [firstWord_eq hsolid, cstr_of_notMem hnul.mounted]

theorem Reports.nulFree {d : DFStructInfo} {r : DfRow} (h : Reports d r) : r.NulFree where
  fileSystem := h.fileSystem ▸ d.fileSystem.noNul
  useRate := h.useRate ▸ d.useRate.noNul
  mounted := h.mounted ▸ d.mounted.noNul

namespace DfListing

/-- The disks found are those of the listing, one for each row on a device and in its order. -/
def Exact (l : DfListing) : Prop :=
  ∃ disks, DiskPrivate.diskInfoByDf (.ofText l.text) = some disks ∧
    List.Forall₂ Reports disks l.devRows

/-- Every mount point is one word, and NULs stay out of the rows on devices. -/
def Plain (l : DfListing) : Prop :=
  (∀ r ∈ l.rows, Solid r.mounted) ∧ ∀ r ∈ l.devRows, r.NulFree

theorem mem_of_mem_devRows {l : DfListing} {r : DfRow} (h : r ∈ l.devRows) : r ∈ l.rows :=
  (List.mem_filter.mp h).1

theorem exact_of_plain {l : DfListing} (h : l.Plain) : l.Exact := by
  refine ⟨_, l.diskInfoByDf_text h.1, ?_⟩
  rw [List.forall₂_map_left_iff, List.forall₂_same]
  intro r hr
  exact r.disk_reports (h.1 r (mem_of_mem_devRows hr)) (h.2 r hr)

end DfListing

namespace DiskPrivate

theorem solid_of_dfAssign {s : Bytes} {v : DfVars}
    (h : dfAssign (scan dfFormat s).1 = some (some v)) : Solid v.mountedOn.str := by
  generalize hitems : (scan dfFormat s).1 = items at h
  have hwords : ∀ w, .word w ∈ items → Solid w := fun w hw => solid_of_mem_scan (hitems ▸ hw)
  simp only [dfAssign] at h
  split at h
  · simp only [Option.bind_eq_bind, Option.bind_eq_some_iff, Option.pure_def, Option.some.injEq]
      at h
    obtain ⟨_, -, _, -, mountedOn, hm, rfl⟩ := h
    rw [CharArray.str_of_store hm]
    exact (hwords _ (by simp)).cstr
  all_goals simp [Option.bind_eq_some_iff] at h

/-- Whatever the listing, a mount point that is reported is a single word. -/
theorem solid_mounted {fp : Stream} {disks : List DFStructInfo}
    (h : diskInfoByDf fp = some disks) : ∀ d ∈ disks, Solid d.mounted.str := by
  rw [diskInfoByDf_eq_some_iff] at h
  refine h.invariant (fun s => ∀ d ∈ s.2, Solid d.mounted.str)
    (Q := fun r => ∀ disks, r = some disks → ∀ d ∈ disks, Solid d.mounted.str) ?_ ?_ ?_ _ rfl
  · simp
  · intro s t hs hst
    obtain ⟨v, hv, -, ht⟩ := dfStep_eq_inl hst
    rw [ht]
    split_ifs
    · intro d hd
      rcases List.mem_append.mp hd with hd | hd
      · exact hs d hd
      · rw [List.mem_singleton.mp hd]
        exact solid_of_dfAssign hv
    · exact hs
  · rintro s r hs hr disks rfl
    simp only [dfStep] at hr
    split at hr
    · cases hr
    · cases hr
      exact hs
    · split_ifs at hr
      split at hr <;> cases hr

theorem exists_reports {disks : List DFStructInfo} {rows : List DfRow}
    (h : List.Forall₂ Reports disks rows) {r : DfRow} (hr : r ∈ rows) :
    ∃ d ∈ disks, Reports d r := by
  induction h with
  | nil => cases hr
  | @cons d q disks rows hdq _ ih =>
    rcases List.mem_cons.mp hr with rfl | hr
    · exact ⟨d, by simp, hdq⟩
    · obtain ⟨e, he, her⟩ := ih hr
      exact ⟨e, by simp [he], her⟩

/-- Reading a listing exactly takes single words as the mount points of its devices. -/
theorem solid_of_exact {l : DfListing} (h : l.Exact) {r : DfRow} (hr : r ∈ l.devRows) :
    Solid r.mounted ∧ r.NulFree := by
  obtain ⟨disks, hdisks, hrep⟩ := h
  obtain ⟨d, hd, hdr⟩ := exists_reports hrep hr
  exact ⟨hdr.mounted ▸ solid_mounted hdisks d hd, hdr.nulFree⟩

/-- Listings whose mount points are single words are read exactly, and of no listing with a blank in
the mount point of a device can that be said. -/
theorem diskInfoByDf_exact (l : DfListing) :
    (l.Plain → l.Exact) ∧ (l.Exact → ∀ r ∈ l.devRows, Solid r.mounted ∧ r.NulFree) :=
  ⟨DfListing.exact_of_plain, fun h _ hr => solid_of_exact h hr⟩

/-- A row for a disk of 100 blocks. -/
def sampleRow (fileSystem : Word) (mounted : Bytes) (h : fileSystem.text.length < 80 ∧
    mounted.length < 80 ∧ mounted ≠ [] ∧ newline ∉ mounted ∧
    (∀ b ∈ mounted.head?, isSpace b = false) ∧ ∀ b ∈ mounted.getLast?, isSpace b = false) :
    DfRow where
  fileSystem := fileSystem
  blocks := .ofNat 100
  used := .ofNat 40
  available := .ofNat 60
  useRate := ⟨ascii "40%", by decide, by decide⟩
  mounted := mounted
  gap := fun _ => .space
  mounted_ne := h.2.2.1
  mounted_inLine := h.2.2.2.1
  mounted_head := h.2.2.2.2.1
  mounted_last := h.2.2.2.2.2
  fileSystem_fits := h.1
  useRate_fits := by decide
  mounted_fits := h.2.1

def sdb : Word := ⟨ascii "/dev/sdb", by decide, by decide⟩

def sdc : Word := ⟨ascii "/dev/sdc", by decide, by decide⟩

def sampleListing (rows : List DfRow) : DfListing where
  header := ascii "Filesystem 1K-blocks Used Available Use% Mounted on"
  rows := rows
  header_inLine := by decide
  header_fits := by decide

def mydisk : DfRow := sampleRow sdb (ascii "/mnt/mydisk") (by decide +kernel)

def myDisk : DfRow := sampleRow sdb (ascii "/mnt/my disk") (by decide +kernel)

def other : DfRow := sampleRow sdc (ascii "/mnt/other") (by decide +kernel)

theorem diskInfoByDf_exact_plain : (sampleListing [mydisk, other]).Exact := by
  refine (diskInfoByDf_exact (sampleListing [mydisk, other])).1 ⟨by decide, ?_⟩
  intro r hr
  have hrow := DfListing.mem_of_mem_devRows hr
  simp only [sampleListing, List.mem_cons, List.not_mem_nil, or_false] at hrow
  rcases hrow with rfl | rfl <;> constructor <;> decide

/-- A blank in the first mount point: one disk is reported, mounted on `/mnt/my`, and the second row
is lost. -/
theorem diskInfoByDf_not_exact : ¬∀ l : DfListing, l.Exact := by
  intro h
  have hmem : myDisk ∈ (sampleListing [myDisk, other]).devRows :=
    List.mem_filter.mpr ⟨by simp [sampleListing], by decide⟩
  exact absurd (solid_of_exact (h _) hmem).1 (by decide)

end DiskPrivate

end ComputerMonitor
