import ComputerMonitor.DiskMonitor.Tail
import ComputerMonitor.Monitor.Disks

/-! The two builds of `GetDisk`: the figures of the root file system measured by `statfs` and by
`df`. -/

namespace ComputerMonitor

open Bytes Scan Stdio Assoc

namespace DiskPrivate

namespace Statfs

def blockSize (st : Statfs) : ℕ := st.f_bsize.toNatClampNeg

/-- The counts are ordered, their sizes in bytes are 64-bit numbers, and blocks are whole kB. -/
structure Valid (st : Statfs) : Prop where
  nonneg : 0 ≤ st.f_bsize
  whole : 1024 ∣ st.blockSize
  avail_le : st.f_bavail ≤ st.f_bfree
  free_le : st.f_bfree ≤ st.f_blocks
  fits : st.blockSize * st.f_blocks.toNat < 2 ^ 64

/-- `count` blocks in units of 1024 bytes. -/
def kB (st : Statfs) (count : ℕ) : ℕ := st.blockSize / 1024 * count

theorem Valid.bytes_eq {st : Statfs} (h : st.Valid) (count : ℕ) :
    st.blockSize * count = st.kB count * 1024 := by
  rw [kB, Nat.mul_right_comm, Nat.div_mul_cancel h.whole]

/-- A product that the code forms does not wrap. -/
theorem Valid.toNat_mul {st : Statfs} (h : st.Valid) {count : UInt64} (hle : count ≤ st.f_blocks) :
    (st.f_bsize.toUInt64 * count).toNat = st.kB count.toNat * 1024 := by
  have hsize : st.f_bsize.toUInt64.toNat = st.blockSize := Int64.toNat_toUInt64_of_le h.nonneg
  have hfits : st.blockSize * count.toNat < 2 ^ 64 := by
    apply lt_of_le_of_lt _ h.fits
    exact Nat.mul_le_mul_left _ (UInt64.le_iff_toNat_le.mp hle)
  rw [UInt64.toNat_mul, hsize, Nat.mod_eq_of_lt hfits, h.bytes_eq]

theorem Valid.diskInfoByStatfs_eq {st : Statfs} (h : st.Valid) :
    diskInfoByStatfs st =
      { totalDisk := .finite (st.kB st.f_blocks.toNat * 1024)
        freeDisk := .finite (st.kB st.f_bavail.toNat * 1024)
        usedDisk := .finite ((st.kB st.f_blocks.toNat - st.kB st.f_bavail.toNat) * 1024) } := by
  have htotal := h.toNat_mul (UInt64.le_refl st.f_blocks)
  have havail := h.toNat_mul (UInt64.le_trans h.avail_le h.free_le)
  simp [diskInfoByStatfs, mul_comm st.f_bavail, htotal, havail, sub_mul]

theorem Valid.blockSize_eq_zero_iff {st : Statfs} (h : st.Valid) :
    st.blockSize = 0 ↔ st.f_bsize = 0 := by
  have hnonneg : (0 : Int64).toInt ≤ st.f_bsize.toInt := Int64.le_iff_toInt_le.mp h.nonneg
  rw [blockSize, ← Int64.toNat_toInt, ← Int64.toInt_inj]
  simp only [Int64.toInt_zero] at hnonneg ⊢
  omega

/-- Blocks that are free but not available are what the two ways of counting differ in. -/
theorem Valid.kB_used_eq_iff {st : Statfs} (h : st.Valid) :
    (st.kB (st.f_blocks.toNat - st.f_bfree.toNat) : ℚ) =
        st.kB st.f_blocks.toNat - st.kB st.f_bavail.toNat ↔
      st.f_bavail = st.f_bfree ∨ st.f_bsize = 0 := by
  have hunit : (st.blockSize / 1024 : ℕ) = 0 ↔ st.f_bsize = 0 := by
    rw [← h.blockSize_eq_zero_iff, Nat.div_eq_zero_iff_lt (by decide)]
    have hwhole := h.whole
    omega
  have hfree : st.f_bfree.toNat ≤ st.f_blocks.toNat := UInt64.le_iff_toNat_le.mp h.free_le
  rw [kB, kB, kB, ← hunit, ← UInt64.toNat_inj]
  push_cast [hfree]
  rw [← mul_sub, mul_eq_mul_left_iff, Nat.cast_eq_zero, sub_right_inj, Nat.cast_inj]
  apply or_congr_left
  exact eq_comm

end Statfs

end DiskPrivate

namespace Monitor

open Json DiskPrivate

/-- The figures under `disk0`. -/
structure Disk0 where
  total : Double
  unused : Double
  used : Double

def disk0 (j : Json) : Option Disk0 := do
  let e ← find (ascii "disk0") j.members
  let total ← (find (ascii "total") e.members).bind numberFloat?
  let unused ← (find (ascii "unused") e.members).bind numberFloat?
  let used ← (find (ascii "used") e.members).bind numberFloat?
  return ⟨total, unused, used⟩

/-- What a file system of so many kB shows. -/
def Disk0.ofKB (total unused used : ℚ) : Disk0 :=
  ⟨.finite (total / 2 ^ 20), .finite (unused / 2 ^ 20), .finite (used / 2 ^ 20)⟩

/-- Bytes over `TB` and kB over `GB` are the same number. -/
theorem bytes_div_TB (kB : ℚ) :
    Double.finite (kB * 1024) / DiskMonitor.TB = .finite (kB / 2 ^ 20) := by
  rw [DiskMonitor.TB, Double.finite_div _ (by norm_num), Double.finite.injEq]
  ring

theorem kB_div_GB (kB : ℚ) : Double.finite kB / GB = .finite (kB / 2 ^ 20) := by
  rw [GB_eq, Double.finite_div _ (by norm_num)]

theorem disk0_getDiskByStatfs {st : Statfs} (h : st.Valid) :
    (getDiskByStatfs fun _ => st).bind disk0 =
      some (.ofKB (st.kB st.f_blocks.toNat) (st.kB st.f_bavail.toNat)
        (st.kB st.f_blocks.toNat - st.kB st.f_bavail.toNat)) := by
  have hdisk : (getDiskByStatfs fun _ => st).bind disk0 =
      some ⟨DiskMonitor.getDiskTotal st, DiskMonitor.getDiskFree st,
        DiskMonitor.getDiskUsed st⟩ := rfl
  rw [hdisk, DiskMonitor.getDiskTotal, DiskMonitor.getDiskFree, DiskMonitor.getDiskUsed,
    DiskPrivate.getDiskTotal, DiskPrivate.getDiskFree, DiskPrivate.getDiskUsed,
    h.diskInfoByStatfs_eq]
  simp only [bytes_div_TB]
  rfl

theorem disk0_diskPatch (it : DFStructInfo) (disks : List DFStructInfo) :
    disk0 (.object (diskPatch (it :: disks))) =
      some ⟨it.blocks / GB, it.available / GB, it.used / GB⟩ := by
  have hname : ascii "disk0" = diskName 0 := by decide
  have hfind := find_diskPatch (show (it :: disks)[0]? = some it from rfl)
  rw [disk0, hname, members_object, hfind, diskEntry_eq]
  rfl

/-- A machine whose only file system on a device is the one mounted on `/`: its figures, the rows
that `df` prints down to it or further, and what `df` prints behind them. -/
structure Machine where
  statfs : Statfs
  valid : statfs.Valid
  df : DfListing
  tail : Bytes
  root : DfRow
  devRows : df.devRows = [root]
  mounted : root.mounted = ascii "/"
  blocks : root.blocks.value = statfs.kB statfs.f_blocks.toNat
  used : root.used.value = statfs.kB (statfs.f_blocks.toNat - statfs.f_bfree.toNat)
  available : root.available.value = statfs.kB statfs.f_bavail.toNat

namespace Machine

/-- Both builds have figures for `disk0`, and they are the same. -/
def Agree (m : Machine) (r : Readings) : Prop :=
  ∃ figures, (getDisk r).bind disk0 = some figures ∧
    (getDiskByStatfs fun _ => m.statfs).bind disk0 = some figures

theorem disk0_getDisk (m : Machine) {r : Readings} (hr : r.df 0 = .ofText (m.df.text ++ m.tail))
    (hsolid : ∀ row ∈ m.df.rows, Solid row.mounted)
    (hfits : ∀ items ∈ dfScans m.tail, ItemsFit dfSizes items) :
    (getDisk r).bind disk0 = some (.ofKB (m.statfs.kB m.statfs.f_blocks.toNat)
      (m.statfs.kB m.statfs.f_bavail.toNat)
      (m.statfs.kB (m.statfs.f_blocks.toNat - m.statfs.f_bfree.toNat))) := by
  obtain ⟨rest, hdisks, -⟩ := exists_diskInfoByDf_append m.df hsolid m.tail hfits
  rw [m.devRows, ← hr] at hdisks
  have hdisk : getDisk r = some (.object (diskPatch (m.root.disk :: rest))) := by
    simp [getDisk, DiskMonitor.getDisksByDf, hdisks, addDisks_null, diskPatch]
  rw [hdisk, Option.bind_some, disk0_diskPatch]
  simp only [DfRow.disk, kB_div_GB, m.blocks, m.used, m.available]
  rfl

theorem getDisk_eq_none (m : Machine) {r : Readings}
    (hr : r.df 0 = .ofText (m.df.text ++ m.tail))
    (hsolid : ∀ row ∈ m.df.rows, Solid row.mounted)
    (h : ¬∀ items ∈ dfScans m.tail, ItemsFit dfSizes items) : getDisk r = none := by
  have hnone := diskInfoByDf_append_eq_none m.df hsolid m.tail h
  rw [← hr] at hnone
  simp [getDisk, DiskMonitor.getDisksByDf, hnone]

/-- Where `df` can be read, the builds agree on the size and on the space that is left. -/
theorem exists_disk0_total_unused (m : Machine) {r : Readings}
    (hr : r.df 0 = .ofText (m.df.text ++ m.tail))
    (hsolid : ∀ row ∈ m.df.rows, Solid row.mounted)
    (hfits : ∀ items ∈ dfScans m.tail, ItemsFit dfSizes items) :
    ∃ d d', (getDisk r).bind disk0 = some d ∧
      (getDiskByStatfs fun _ => m.statfs).bind disk0 = some d' ∧ d.total = d'.total ∧
      d.unused = d'.unused :=
  ⟨_, _, m.disk0_getDisk hr hsolid hfits, disk0_getDiskByStatfs m.valid, rfl, rfl⟩

/-- What they can differ in is the space in use. -/
theorem agree_iff_of_fits (m : Machine) {r : Readings}
    (hr : r.df 0 = .ofText (m.df.text ++ m.tail))
    (hsolid : ∀ row ∈ m.df.rows, Solid row.mounted)
    (hfits : ∀ items ∈ dfScans m.tail, ItemsFit dfSizes items) :
    m.Agree r ↔ m.statfs.f_bavail = m.statfs.f_bfree ∨ m.statfs.f_bsize = 0 := by
  rw [← m.valid.kB_used_eq_iff, Agree, m.disk0_getDisk hr hsolid hfits,
    disk0_getDiskByStatfs m.valid]
  constructor
  · rintro ⟨figures, hdf, hstatfs⟩
    rw [← hstatfs, Option.some.injEq] at hdf
    have hused := congrArg Disk0.used hdf
    simpa [Disk0.ofKB] using hused
  · intro h
    exact ⟨_, rfl, by rw [h]⟩

/-- With single words as mount points in the listing, the builds agree exactly if the rest can be
scanned as well and no free block is kept from the users. -/
theorem agree_iff (m : Machine) {r : Readings} (hr : r.df 0 = .ofText (m.df.text ++ m.tail))
    (hsolid : ∀ row ∈ m.df.rows, Solid row.mounted) :
    m.Agree r ↔ (∀ items ∈ dfScans m.tail, ItemsFit dfSizes items) ∧
      (m.statfs.f_bavail = m.statfs.f_bfree ∨ m.statfs.f_bsize = 0) := by
  by_cases hfits : ∀ items ∈ dfScans m.tail, ItemsFit dfSizes items
  · rw [and_iff_right hfits]
    exact m.agree_iff_of_fits hr hsolid hfits
  · rw [iff_false_right fun h => hfits h.1, Agree, m.getDisk_eq_none hr hsolid hfits]
    rintro ⟨figures, hdf, -⟩
    cases hdf

/-- The row `df` prints for the file system. -/
def rootRow (st : Statfs) : DfRow :=
  { sampleRow sdb (ascii "/") (by decide +kernel) with
    blocks := .ofNat (st.kB st.f_blocks.toNat)
    used := .ofNat (st.kB (st.f_blocks.toNat - st.f_bfree.toNat))
    available := .ofNat (st.kB st.f_bavail.toNat) }

/-- A machine without any other file system. -/
def rootMachine (st : Statfs) (h : st.Valid) : Machine where
  statfs := st
  valid := h
  df := sampleListing [rootRow st]
  tail := []
  root := rootRow st
  devRows := rfl
  mounted := rfl
  blocks := Decimal.value_ofNat _
  used := Decimal.value_ofNat _
  available := Decimal.value_ofNat _

theorem df_rootMachine (st : Statfs) (h : st.Valid) :
    (sampleReadings (sampleListing [rootRow st])).df 0 =
      .ofText ((rootMachine st h).df.text ++ (rootMachine st h).tail) := by
  simp [sampleReadings, rootMachine]

theorem solid_rootMachine (st : Statfs) (h : st.Valid) :
    ∀ row ∈ (rootMachine st h).df.rows, Solid row.mounted := by
  intro row hrow
  rw [List.mem_singleton.mp hrow]
  change Solid (ascii "/")
  decide

theorem agree_iff_root :
    ∃ h, (rootMachine ⟨4096, 25, 15, 15⟩ h).Agree
      (sampleReadings (sampleListing [rootRow ⟨4096, 25, 15, 15⟩])) := by
  have hvalid : Statfs.Valid ⟨4096, 25, 15, 15⟩ :=
    ⟨by decide, by decide, by decide, by decide, by decide⟩
  refine ⟨hvalid, ?_⟩
  apply (agree_iff _ (df_rootMachine _ hvalid) (solid_rootMachine _ hvalid)).mpr
  exact ⟨itemsFit_nil, .inl rfl⟩

/-- Five of the free blocks are kept for root. -/
theorem not_agree_reserved :
    ¬∀ (m : Machine) (r : Readings), r.df 0 = .ofText (m.df.text ++ m.tail) → m.Agree r := by
  intro h
  have hvalid : Statfs.Valid ⟨4096, 25, 15, 10⟩ :=
    ⟨by decide, by decide, by decide, by decide, by decide⟩
  have hr := df_rootMachine _ hvalid
  have hagree := h (rootMachine _ hvalid) _ hr
  rw [agree_iff_of_fits _ hr (solid_rootMachine _ hvalid) itemsFit_nil] at hagree
  revert hagree
  simp only [rootMachine]
  decide

end Machine

end Monitor

end ComputerMonitor
