import ComputerMonitor.Common
import ComputerMonitor.Support.Loop
import ComputerMonitor.Support.Scan
import ComputerMonitor.Support.Stdio

/-! `DiskMonitor.cpp`: the root file system as `statfs` counts it, the disks listed by `df` and the
transfer rates reported by `iostat`.  A `none` stands for undefined behaviour: a word stored past
the end of its array, or an array compared before anything has been stored in it. -/

namespace ComputerMonitor

open Bytes Scan Stdio

namespace DiskPrivate

/-! ### `statfs` -/

/-- What a call of `statfs` for `/` stores: a block size in bytes, and counts of blocks. -/
structure Statfs where
  f_bsize : Int64
  f_blocks : UInt64
  f_bfree : UInt64
  f_bavail : UInt64

/-- The members that `DiskInfoByStatfs` sets. -/
structure StatfsInfo where
  totalDisk : Double
  usedDisk : Double
  freeDisk : Double

/-- The block size is converted to the unsigned type of the counts it is multiplied with. -/
def diskInfoByStatfs (diskInfo : Statfs) : StatfsInfo :=
  let blockSize := diskInfo.f_bsize.toUInt64
  let totalSize : Double := .finite (blockSize * diskInfo.f_blocks).toNat
  let availableDisk := diskInfo.f_bavail * blockSize
  { totalDisk := totalSize
    freeDisk := .finite availableDisk.toNat
    usedDisk := totalSize - .finite availableDisk.toNat }

def getDiskTotal (diskInfo : Statfs) : Double := (diskInfoByStatfs diskInfo).totalDisk

def getDiskUsed (diskInfo : Statfs) : Double := (diskInfoByStatfs diskInfo).usedDisk

def getDiskFree (diskInfo : Statfs) : Double := (diskInfoByStatfs diskInfo).freeDisk

/-! ### `df` -/

/-- The variables one row of `df` is scanned into. -/
structure DfVars where
  fileSystem : CharArray 80
  blocks : Double
  used : Double
  available : Double
  useRate : CharArray 10
  mountedOn : CharArray 80

/-- `"%s %lf %lf %lf %s %s"` -/
def dfFormat : List Conv := [.word, .double, .double, .double, .word, .word]

/-- Storing what `fscanf` converted.  The variables are only read when all six conversions have
succeeded, so the inner `none` has no values, but what has been converted is stored all the same. -/
def dfAssign : List Item → Option (Option DfVars)
  | [.word fs, .double blocks, .double used, .double available, .word rate, .word mounted] => do
    let fileSystem ← CharArray.store 80 fs
    let useRate ← CharArray.store 10 rate
    let mountedOn ← CharArray.store 80 mounted
    return some ⟨fileSystem, blocks, used, available, useRate, mountedOn⟩
  | [.word fs, .double _, .double _, .double _, .word rate] => do
    let _ ← CharArray.store 80 fs
    let _ ← CharArray.store 10 rate
    return none
  | .word fs :: _ => do
    let _ ← CharArray.store 80 fs
    return none
  | _ => some none

/-- The copy into `dfDisk`. -/
def dfDisk (v : DfVars) : Option DFStructInfo := do
  let fileSystem ← CharArray.strcpy 80 v.fileSystem
  let useRate ← CharArray.strcpy 10 v.useRate
  let mounted ← CharArray.strcpy 80 v.mountedOn
  return ⟨fileSystem, v.blocks, v.used, v.available, useRate, mounted⟩

/-- One round of `while (6 == fscanf(..))` on the bytes left and the disks found. -/
def dfStep (s : Bytes × List DFStructInfo) :
    (Bytes × List DFStructInfo) ⊕ Option (List DFStructInfo) :=
  let (items, rest) := scan dfFormat s.1
  match dfAssign items with
  | none => .inr none
  | some none => .inr (some s.2)
  | some (some v) =>
    if strncmpEq (ascii "/dev/") v.fileSystem.str 5 then
      match dfDisk v with
      | none => .inr none
      | some d => .inl (rest, s.2 ++ [d])
    else .inl (rest, s.2)

theorem dfDisk_eq (v : DfVars) : dfDisk v =
    some ⟨v.fileSystem, v.blocks, v.used, v.available, v.useRate, v.mountedOn⟩ := by
  simp [dfDisk, CharArray.strcpy_self]

/-- Only a row with all six columns keeps the loop going. -/
theorem dfStep_eq_inl {s t : Bytes × List DFStructInfo} (h : dfStep s = .inl t) :
    ∃ v, dfAssign (scan dfFormat s.1).1 = some (some v) ∧ t.1 = (scan dfFormat s.1).2 ∧
      t.2 = if strncmpEq (ascii "/dev/") v.fileSystem.str 5 then
          s.2 ++ [⟨v.fileSystem, v.blocks, v.used, v.available, v.useRate, v.mountedOn⟩]
        else s.2 := by
  simp only [dfStep] at h
  split at h
  · cases h
  · cases h
  · rename_i v hv
    refine ⟨v, hv, ?_⟩
    rw [dfDisk_eq] at h
    split at h
    · cases h
      simp [*]
    · cases h
      simp [*]

theorem length_dfStep_lt {s t : Bytes × List DFStructInfo} (h : dfStep s = .inl t) :
    t.1.length < s.1.length := by
  obtain ⟨v, hv, ht, -⟩ := dfStep_eq_inl h
  rw [ht]
  cases hw : Conv.word.read s.1 with
  | none =>
    rw [dfFormat, scan_fail hw] at hv
    cases hv
  | some r =>
    rw [dfFormat, scan_cons hw]
    obtain ⟨w, hword, heq⟩ := Option.map_eq_some_iff.mp hw
    cases heq
    exact (scan_suffix _ _).length_le.trans_lt (length_readWord hword)

def diskInfoByDf (fp : Stream) : Option (List DFStructInfo) :=
  let (_, _, fp) := fgets 256 fp
  (Loop.run dfStep (fp.rest.length + 1) (fp.rest, [])).join

/-- The loop over the rows ends within as many rounds as there are bytes. -/
theorem diskInfoByDf_eq_some_iff (fp : Stream) (disks : List DFStructInfo) :
    diskInfoByDf fp = some disks ↔
      Loop.Returns dfStep ((fgets 256 fp).2.2.rest, []) (some disks) := by
  rw [diskInfoByDf, Option.join_eq_some_iff]
  exact Loop.run_eq_some_iff (fun _ => True) (fun s => s.1.length)
    (fun _ _ _ h => ⟨trivial, length_dfStep_lt h⟩) trivial (by simp)

/-! ### `iostat` -/

/-- `"%s %lf %lf %lf %lf %lf %lf %lf"` -/
def ioFormat : List Conv :=
  [.word, .double, .double, .double, .double, .double, .double, .double]

structure IoState where
  fp : Stream
  devName : Option (CharArray 20)
  data : Fin 8 → Double
  secondTime : Bool
  readIO : Double
  writeIO : Double

/-- What `sscanf` leaves in `devName` and `data`: the old contents where nothing was converted. -/
def ioAssign (items : List Item) (devName : Option (CharArray 20)) (data : Fin 8 → Double) :
    Option (Option (CharArray 20) × (Fin 8 → Double)) :=
  match items with
  | .word w :: xs =>
    (CharArray.store 20 w).map fun name =>
      (some name, fun i => (xs.filterMap Item.double?).getD i (data i))
  | _ => some (devName, data)

def isDevice (devName : CharArray 20) : Bool := strncmpEq (ascii "Device") devName.str 6

/-- The two tests on a line: the second title, or a device behind it. -/
def ioLine (devName : CharArray 20) (s : IoState) : IoState :=
  if s.secondTime = false ∧ isDevice devName = true then { s with secondTime := true }
  else if s.secondTime = true ∧ isDevice devName = false then
    { s with readIO := s.readIO + s.data 1, writeIO := s.writeIO + s.data 2 }
  else s

theorem ioLine_title {devName : CharArray 20} {s : IoState} (hs : s.secondTime = false)
    (hd : isDevice devName = true) : ioLine devName s = { s with secondTime := true } := by
  simp [ioLine, hs, hd]

theorem ioLine_device {devName : CharArray 20} {s : IoState} (hs : s.secondTime = true)
    (hd : isDevice devName = false) : ioLine devName s =
      { s with readIO := s.readIO + s.data 1, writeIO := s.writeIO + s.data 2 } := by
  simp [ioLine, hs, hd]

/-- Devices before the second title and titles behind it are passed over. -/
theorem ioLine_idle {devName : CharArray 20} {s : IoState} (h : s.secondTime = isDevice devName) :
    ioLine devName s = s := by
  rw [ioLine, h]
  cases isDevice devName <;> rfl

@[simp] theorem fp_ioLine (devName : CharArray 20) (s : IoState) :
    (ioLine devName s).fp = s.fp := by
  rw [ioLine]
  split_ifs <;> rfl

/-- One round of the loop over the lines behind the first title. -/
def ioStep (s : IoState) : IoState ⊕ Option (Double × Double) :=
  let (ok, buffer, fp) := fgets 1023 s.fp
  if ok then
    match ioAssign (sscanf buffer ioFormat) s.devName s.data with
    | some (some devName, data) =>
      .inl (ioLine devName { s with fp, devName := some devName, data })
    | _ => .inr none
  else .inr (some (s.readIO, s.writeIO))

/-- The loop starts with nothing stored in `devName` and with `data` zeroed. -/
def ioInit (pipe : Stream) : IoState := ⟨pipe, none, fun _ => 0, false, 0, 0⟩

/-- The pair of rates that `DiskIO` publishes. -/
def diskIO (pipe : Stream) : Option (Double × Double) :=
  let (_, _, pipe) := fgets 1023 pipe
  let (_, _, pipe) := fgets 1023 pipe
  let (_, _, pipe) := fgets 1023 pipe
  (Loop.run ioStep (pipe.rest.length + 1) (ioInit pipe)).join

/-- The three lines in front of the loop are passed over. -/
theorem pieces_title (pipe : Stream) :
    pieces 1023 (fgets 1023 (fgets 1023 (fgets 1023 pipe).2.2).2.2).2.2.rest =
      (pieces 1023 pipe.rest).drop 3 := by
  rw [pieces_fgets (by decide), pieces_fgets (by decide), pieces_fgets (by decide)]
  simp only [← List.drop_one, List.drop_drop]

theorem length_ioStep_lt {s t : IoState} (h : ioStep s = .inl t) :
    t.fp.rest.length < s.fp.rest.length := by
  simp only [ioStep] at h
  split at h
  · rename_i hok
    have hlt := fgets_ok_lt (by decide) hok
    split at h
    · rw [Sum.inl.injEq] at h
      rw [← h, fp_ioLine]
      exact hlt
    · cases h
  · cases h

theorem run_ioStep_eq_some_iff (pipe : Stream) (r : Option (Double × Double)) :
    Loop.run ioStep (pipe.rest.length + 1) (ioInit pipe) = some r ↔
      Loop.Returns ioStep (ioInit pipe) r :=
  Loop.run_eq_some_iff (fun _ => True) (fun s => s.fp.rest.length)
    (fun _ _ _ h => ⟨trivial, length_ioStep_lt h⟩) trivial (by simp [ioInit])

theorem diskIO_eq_some_iff (pipe : Stream) (rates : Double × Double) :
    diskIO pipe = some rates ↔
      Loop.Returns ioStep
        (ioInit (fgets 1023 (fgets 1023 (fgets 1023 pipe).2.2).2.2).2.2) (some rates) := by
  rw [DiskPrivate.diskIO, Option.join_eq_some_iff, ← run_ioStep_eq_some_iff]

end DiskPrivate

namespace DiskMonitor

/-- `const double TB{1024 * 1024 * 1024}`: `df` counts in kB, and `statfs` gives bytes. -/
def TB : Double := .finite (1024 * 1024 * 1024)

def getDiskTotal (diskInfo : DiskPrivate.Statfs) : Double := DiskPrivate.getDiskTotal diskInfo / TB

def getDiskUsed (diskInfo : DiskPrivate.Statfs) : Double := DiskPrivate.getDiskUsed diskInfo / TB

def getDiskFree (diskInfo : DiskPrivate.Statfs) : Double := DiskPrivate.getDiskFree diskInfo / TB

def total (disks : List DFStructInfo) : Double :=
  disks.foldl (fun total it => total + it.blocks / TB) 0

def used (disks : List DFStructInfo) : Double :=
  disks.foldl (fun used it => used + it.used / TB) 0

def getDisksByDf (df : Stream) : Option (List DFStructInfo) := DiskPrivate.diskInfoByDf df

def diskTotalByDf (df : Stream) : Option Double := (DiskPrivate.diskInfoByDf df).map total

def diskUsedByDf (df : Stream) : Option Double := (DiskPrivate.diskInfoByDf df).map used

end DiskMonitor

end ComputerMonitor
