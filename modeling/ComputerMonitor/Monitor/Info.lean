import ComputerMonitor.CPUMonitor.Cpuinfo
import ComputerMonitor.DiskMonitor.Listing
import ComputerMonitor.Monitor

/-! The document for `RequestBaseInfo`, merged from three. -/

namespace ComputerMonitor

open Bytes Stdio Assoc

namespace Monitor

open Json

theorem cpuEntry_eq (modelName baseClock usage : Bytes) : cpuEntry modelName baseClock usage =
    .object [(ascii "baseClock", .string baseClock), (ascii "modelName", .string modelName),
      (ascii "usage", .string usage)] := rfl

theorem memoryEntry_eq (total unused : UInt64) (usage : Bytes) : memoryEntry total unused usage =
    .object [(ascii "total", .numberUnsigned total.toNat),
      (ascii "unused", .numberUnsigned unused.toNat), (ascii "usage", .string usage)] := rfl

theorem diskEntry_eq (it : DFStructInfo) : diskEntry it =
    .object [(ascii "name", .string it.mounted.str), (ascii "total", .numberFloat (it.blocks / GB)),
      (ascii "unused", .numberFloat (it.available / GB)),
      (ascii "used", .numberFloat (it.used / GB))] := rfl

theorem isFlat_cpuEntry (modelName baseClock usage : Bytes) :
    (cpuEntry modelName baseClock usage).IsFlat := by
  rw [cpuEntry_eq]
  refine isFlat_object (by simp [isLeaf_string]) ?_
  simp only [keys_cons, keys_nil]
  decide

theorem isFlat_memoryEntry (total unused : UInt64) (usage : Bytes) :
    (memoryEntry total unused usage).IsFlat := by
  rw [memoryEntry_eq]
  refine isFlat_object (by simp [isLeaf_string, isLeaf_numberUnsigned]) ?_
  simp only [keys_cons, keys_nil]
  decide

theorem isFlat_diskEntry (it : DFStructInfo) : (diskEntry it).IsFlat := by
  rw [diskEntry_eq]
  refine isFlat_object (by simp [isLeaf_string, isLeaf_numberFloat]) ?_
  simp only [keys_cons, keys_nil]
  decide

/-! ### The members named after the disks -/

theorem diskName_injective : Function.Injective diskName := by
  intro i j h
  exact decimal_injective (List.append_cancel_left h)

/-- `disk` is not how `cpu` or `memory` begins. -/
theorem head_diskName (num : ℕ) : (diskName num).head? = some 0x64 := rfl

theorem diskName_ne {num : ℕ} {key : Bytes} (h : key.head? ≠ some 0x64) : diskName num ≠ key := by
  rintro rfl
  exact h (head_diskName num)

def diskMembers (num : ℕ) : List DFStructInfo → List (Bytes × Json)
  | [] => []
  | it :: disks => (diskName num, diskEntry it) :: diskMembers (num + 1) disks

theorem keys_diskMembers (num : ℕ) (disks : List DFStructInfo) :
    keys (diskMembers num disks) = (List.range' num disks.length).map diskName := by
  induction disks generalizing num with
  | nil => rfl
  | cons it disks ih => simp [diskMembers, ih, List.range'_succ]

theorem nodup_keys_diskMembers (num : ℕ) (disks : List DFStructInfo) :
    (keys (diskMembers num disks)).Nodup := by
  rw [keys_diskMembers]
  exact List.Nodup.map diskName_injective List.nodup_range'

theorem isFlat_of_mem_diskMembers {num : ℕ} {disks : List DFStructInfo} {m : Bytes × Json}
    (h : m ∈ diskMembers num disks) : m.2.IsFlat := by
  induction disks generalizing num with
  | nil => cases h
  | cons it disks ih =>
    rcases List.mem_cons.mp h with rfl | h
    · exact isFlat_diskEntry it
    · exact ih h

theorem addDisks_object (ms : List (Bytes × Json)) (num : ℕ) (disks : List DFStructInfo) :
    addDisks (.object ms) num disks = some (.object (insertAll (diskMembers num disks) ms)) := by
  induction disks generalizing ms num with
  | nil => rfl
  | cons it disks ih => simp [addDisks, ih, diskMembers]

/-- The document of `GetDisk`: without disks it has never been assigned to and is null. -/
theorem addDisks_null (disks : List DFStructInfo) :
    addDisks .null 0 disks =
      some (if disks = [] then .null else .object (insertAll (diskMembers 0 disks) [])) := by
  cases disks with
  | nil => rfl
  | cons it disks => simp [addDisks, addDisks_object, diskMembers, Assoc.insert]

/-! ### The three merges -/

/-- An object with one member, itself a flat object. -/
def Holds (key : Bytes) (j : Json) : Prop :=
  ∃ entry : Json, entry.IsFlat ∧ j = .object [(key, entry)]

theorem holds_getCPU {m m' : Monitor} {r : Readings} {cpu : Json}
    (h : m.getCPU r = some (cpu, m')) : Holds (ascii "cpu") cpu := by
  simp only [getCPU, Option.bind_eq_bind, Option.bind_eq_some_iff, null_set, Option.pure_def,
    Option.some.injEq, Prod.mk.injEq] at h
  obtain ⟨⟨modelName, _⟩, -, ⟨baseClock, _⟩, -, _, rfl, rfl, -⟩ := h
  exact ⟨_, isFlat_cpuEntry _ _ _, rfl⟩

theorem holds_getMemory {r : Readings} {memory : Json} (h : getMemory r = some memory) :
    Holds (ascii "memory") memory := by
  simp only [getMemory, Option.bind_eq_bind, Option.bind_eq_some_iff, null_set,
    Option.some.injEq] at h
  obtain ⟨total, -, unused, -, usage, -, rfl⟩ := h
  exact ⟨_, isFlat_memoryEntry _ _ _, rfl⟩

/-- `info` has the members of the three documents and no others. -/
structure Complete (info cpu memory disk : Json) (n : ℕ) : Prop where
  isObject : info = .object info.members
  keys : (keys info.members).Perm
    (ascii "cpu" :: ascii "memory" :: (List.range n).map diskName)
  cpu : find (ascii "cpu") info.members = find (ascii "cpu") cpu.members
  memory : find (ascii "memory") info.members = find (ascii "memory") memory.members
  disk : ∀ num < n, find (diskName num) info.members = find (diskName num) disk.members

/-- Merging an object of flat members with new keys adds them as they are. -/
theorem mergePatch_members {target : Json} {ps : List (Bytes × Json)} (h : ∀ m ∈ ps, m.2.IsFlat)
    (hnew : (Assoc.keys ps ++ Assoc.keys target.members).Nodup) :
    mergePatch target (.object ps) = .object (insertAll ps target.members) := by
  rw [mergePatch, mergeMembers_flat h hnew]

theorem mergePatch_cpu_memory {cpu memory : Json} (hcpu : Holds (ascii "cpu") cpu)
    (hmemory : Holds (ascii "memory") memory) :
    mergePatch (mergePatch .null cpu) memory = .object (cpu.members ++ memory.members) := by
  obtain ⟨entry, hentry, rfl⟩ := hcpu
  obtain ⟨entry', hentry', rfl⟩ := hmemory
  have hfirst : mergePatch .null (.object [(ascii "cpu", entry)]) =
      .object [(ascii "cpu", entry)] := by
    rw [mergePatch_members (by simpa using hentry) (by simp)]
    rfl
  have hne : ascii "memory" ≠ ascii "cpu" := by decide
  rw [hfirst, mergePatch_members (by simpa using hentry') (by simpa using hne)]
  rfl

theorem Holds.keys {key : Bytes} {j : Json} (h : Holds key j) : Assoc.keys j.members = [key] := by
  obtain ⟨entry, -, rfl⟩ := h
  rfl

theorem keys_append {cpu memory : Json} (hcpu : Holds (ascii "cpu") cpu)
    (hmemory : Holds (ascii "memory") memory) :
    Assoc.keys (cpu.members ++ memory.members) = [ascii "cpu", ascii "memory"] := by
  rw [Assoc.keys, List.map_append]
  exact congrArg₂ (· ++ ·) hcpu.keys hmemory.keys

/-- The members of `GetDisk`'s document. -/
def diskPatch (disks : List DFStructInfo) : List (Bytes × Json) :=
  insertAll (diskMembers 0 disks) []

theorem keys_diskPatch (disks : List DFStructInfo) :
    (Assoc.keys (diskPatch disks)).Perm ((List.range disks.length).map diskName) := by
  have hperm : (Assoc.keys (insertAll (diskMembers 0 disks) [])).Perm
      (Assoc.keys (diskMembers 0 disks) ++ Assoc.keys []) :=
    keys_insertAll (by simpa using nodup_keys_diskMembers 0 disks)
  rwa [keys_nil, List.append_nil, keys_diskMembers, ← List.range_eq_range'] at hperm

theorem nodup_diskPatch {disks : List DFStructInfo} {ms : List (Bytes × Json)}
    (h : Assoc.keys ms = [ascii "cpu", ascii "memory"]) :
    (Assoc.keys (diskPatch disks) ++ Assoc.keys ms).Nodup := by
  have hdisks : (Assoc.keys (diskPatch disks)).Nodup :=
    (keys_diskPatch disks).nodup_iff.mpr (List.nodup_range.map diskName_injective)
  rw [h, List.nodup_append]
  refine ⟨hdisks, by decide, ?_⟩
  intro key hkey other hother
  obtain ⟨num, -, rfl⟩ := List.mem_map.mp ((keys_diskPatch disks).subset hkey)
  simp only [List.mem_cons, List.not_mem_nil, or_false] at hother
  rcases hother with rfl | rfl <;> exact diskName_ne (by decide)

/-- The last merge adds the disks, if there are any. -/
theorem mergePatch_disk {disks : List DFStructInfo} {ms : List (Bytes × Json)}
    (h : Assoc.keys ms = [ascii "cpu", ascii "memory"]) :
    mergePatch (.object ms) (.object (diskPatch disks)) =
      .object (insertAll (diskPatch disks) ms) := by
  refine mergePatch_members ?_ (nodup_diskPatch h)
  intro m hm
  exact isFlat_of_mem_diskMembers ((mem_insertAll hm).resolve_right (by simp))

theorem complete_insertAll {cpu memory : Json} (hcpu : Holds (ascii "cpu") cpu)
    (hmemory : Holds (ascii "memory") memory) (disks : List DFStructInfo) :
    Complete (.object (insertAll (diskPatch disks) (cpu.members ++ memory.members))) cpu memory
      (.object (diskPatch disks)) disks.length := by
  have hkeys := keys_append hcpu hmemory
  have hnew := @nodup_diskPatch disks _ hkeys
  obtain ⟨hnd, -, hdisj⟩ := List.nodup_append.mp hnew
  rw [hkeys] at hdisj
  have hfind : ∀ key ∈ [ascii "cpu", ascii "memory"], find key (diskPatch disks) = none :=
    fun key hkey => find_eq_none_iff.mpr fun hmem => hdisj key hmem key hkey rfl
  refine ⟨rfl, ?_, ?_, ?_, ?_⟩
  · refine (keys_insertAll hnew).trans ?_
    rw [hkeys]
    exact List.perm_append_comm.trans (((keys_diskPatch disks).cons _).cons _)
  · rw [members_object, find_insertAll hnd, hfind _ (by simp)]
    obtain ⟨entry, -, rfl⟩ := hcpu
    simp [find]
  · rw [members_object, find_insertAll hnd, hfind _ (by simp)]
    obtain ⟨entry, -, rfl⟩ := hcpu
    have hne : ascii "cpu" ≠ ascii "memory" := by decide
    simp [find, hne]
  · intro num _
    have hnone : find (diskName num) (cpu.members ++ memory.members) = none := by
      rw [find_eq_none_iff, hkeys]
      simp only [List.mem_cons, List.not_mem_nil, or_false, not_or]
      exact ⟨diskName_ne (by decide), diskName_ne (by decide)⟩
    rw [members_object, members_object, find_insertAll hnd, hnone, Option.or_none]

theorem Complete.isEmpty {info cpu memory disk : Json} {n : ℕ}
    (h : Complete info cpu memory disk n) : info.isEmpty = false := by
  have hkeys := h.keys
  rw [h.isObject]
  cases hms : info.members with
  | nil => simp [hms] at hkeys
  | cons m ms => rfl

theorem getInfoByJson_of_ne_nil {m m' : Monitor} {r : Readings} {cpu memory : Json}
    {disks : List DFStructInfo} (hcpu : m.getCPU r = some (cpu, m'))
    (hmemory : getMemory r = some memory)
    (hdisks : DiskMonitor.getDisksByDf (r.df 0) = some disks) (hne : disks ≠ []) :
    m.getInfoByJson r =
      some (.object (insertAll (diskPatch disks) (cpu.members ++ memory.members)), m') := by
  have hcpu' := holds_getCPU hcpu
  have hmemory' := holds_getMemory hmemory
  have hdisk : getDisk r = some (.object (diskPatch disks)) := by
    simp [getDisk, hdisks, addDisks_null, hne, diskPatch]
  simp only [getInfoByJson, hcpu, hmemory, hdisk, Option.bind_eq_bind, Option.bind_some,
    mergePatch_cpu_memory hcpu' hmemory', mergePatch_disk (keys_append hcpu' hmemory'),
    (complete_insertAll hcpu' hmemory' disks).isEmpty]
  rfl

/-- Without disks the last merge is one with null, and nothing is left. -/
theorem getInfoByJson_nil {m m' : Monitor} {r : Readings} {cpu memory : Json}
    (hcpu : m.getCPU r = some (cpu, m')) (hmemory : getMemory r = some memory)
    (hdisks : DiskMonitor.getDisksByDf (r.df 0) = some []) :
    m.getInfoByJson r = some (.null, m') := by
  simp [getInfoByJson, hcpu, hmemory, getDisk, hdisks, addDisks_null, mergePatch, isEmpty]

/-! ### Requests that are answered -/

theorem getCPU_ofText (m : Monitor) {r : Readings} {s : Fin 2 → Bytes}
    (h : r.cpuinfo = fun i => .ofText (s i)) :
    let name := CPUMonitor.kept m.cpuMonitor.modelName (CPUPrivate.modelNameOf (s 0))
    let clock := CPUMonitor.kept m.cpuMonitor.baseClock (CPUPrivate.cpuMhzOf (s 1))
    m.getCPU r = some (.object [(ascii "cpu",
      cpuEntry name clock (CPUMonitor.getCpuUsage r.cpuUsage))], ⟨⟨name, clock⟩⟩) := by
  simp [getCPU, h, CPUMonitor.getCPUModelName_ofText, CPUMonitor.getCpuBaseClock_ofText]

theorem exists_getMemory (r : Readings) : ∃ memory, getMemory r = some memory := by
  obtain ⟨m, hm⟩ := MemoryPrivate.exists_getMemoryInfo (r.meminfo 0)
  obtain ⟨m', hm'⟩ := MemoryPrivate.exists_getMemoryInfo (r.meminfo 1)
  obtain ⟨m'', hm''⟩ := MemoryPrivate.exists_getMemoryInfo (r.meminfo 2)
  simp [getMemory, MemoryMonitor.getMemoryTotal, MemoryMonitor.getMemoryUnused,
    MemoryMonitor.getMemoryUsage, MemoryPrivate.getMemoryTotal, MemoryPrivate.getMemoryUnused,
    MemoryPrivate.getMemoryUsage, hm, hm', hm'']

open DiskPrivate in
/-- What a machine with the given listing of disks finds. -/
def sampleReadings (l : DfListing) : Readings where
  cpuinfo := fun _ => .ofText (ascii "model name\t: Intel(R) Xeon(R)\ncpu MHz\t\t: 2400.000\n")
  cpuUsage := .finite (1 / 4)
  meminfo := fun _ => .ofText (ascii "MemTotal: 16000000 kB\nMemFree: 8000000 kB\n")
  df := fun _ => .ofText l.text
  diskIO := (.finite 0, .finite 0)

/-! ### The document -/

/-- All three documents are in the one for `RequestBaseInfo` exactly if there is a disk. -/
theorem getInfoByJson_complete {m m' : Monitor} {r : Readings} {cpu memory : Json}
    {disks : List DFStructInfo} (hcpu : m.getCPU r = some (cpu, m'))
    (hmemory : getMemory r = some memory)
    (hdisks : DiskMonitor.getDisksByDf (r.df 0) = some disks) :
    (∃ info disk, m.getInfoByJson r = some (info, m') ∧ getDisk r = some disk ∧
      Complete info cpu memory disk disks.length) ↔ disks ≠ [] := by
  constructor
  · rintro ⟨info, disk, hinfo, -, hcomplete⟩ rfl
    rw [getInfoByJson_nil hcpu hmemory hdisks] at hinfo
    cases hinfo
    cases hcomplete.isObject
  · intro hne
    refine ⟨_, .object (diskPatch disks), getInfoByJson_of_ne_nil hcpu hmemory hdisks hne, ?_,
      complete_insertAll (holds_getCPU hcpu) (holds_getMemory hmemory) disks⟩
    simp [getDisk, hdisks, addDisks_null, hne, diskPatch]

theorem getInfoByJson_complete_mydisk :
    let r := sampleReadings (DiskPrivate.sampleListing [DiskPrivate.mydisk])
    ∃ info cpu memory disk m', create.getInfoByJson r = some (info, m') ∧
      create.getCPU r = some (cpu, m') ∧ getMemory r = some memory ∧ getDisk r = some disk ∧
      Complete info cpu memory disk 1 := by
  have hdisks : DiskMonitor.getDisksByDf
      ((sampleReadings (DiskPrivate.sampleListing [DiskPrivate.mydisk])).df 0) =
        some [DiskPrivate.mydisk.disk] :=
    DfListing.diskInfoByDf_text _ (by decide)
  obtain ⟨memory, hmemory⟩ :=
    exists_getMemory (sampleReadings (DiskPrivate.sampleListing [DiskPrivate.mydisk]))
  have hcpu := getCPU_ofText create
    (r := sampleReadings (DiskPrivate.sampleListing [DiskPrivate.mydisk])) rfl
  obtain ⟨info, disk, hinfo, hdisk, hcomplete⟩ :=
    (getInfoByJson_complete hcpu hmemory hdisks).mpr (by simp)
  exact ⟨info, _, memory, disk, _, hinfo, hcpu, hmemory, hdisk, hcomplete⟩

/-- A listing without disks: `GetCPU` and `GetMemory` return what they read, but the reply is
null. -/
theorem getInfoByJson_not_complete :
    ¬∀ (m m' : Monitor) (r : Readings) (cpu memory : Json) (disks : List DFStructInfo),
      m.getCPU r = some (cpu, m') → getMemory r = some memory →
        DiskMonitor.getDisksByDf (r.df 0) = some disks →
          ∃ info disk, m.getInfoByJson r = some (info, m') ∧ getDisk r = some disk ∧
            Complete info cpu memory disk disks.length := by
  intro h
  have hdisks : DiskMonitor.getDisksByDf ((sampleReadings (DiskPrivate.sampleListing [])).df 0) =
      some [] :=
    DfListing.diskInfoByDf_text _ (by decide)
  obtain ⟨memory, hmemory⟩ := exists_getMemory (sampleReadings (DiskPrivate.sampleListing []))
  have hcpu := getCPU_ofText create (r := sampleReadings (DiskPrivate.sampleListing [])) rfl
  obtain ⟨info, disk, hinfo, -, hcomplete⟩ := h _ _ _ _ _ _ hcpu hmemory hdisks
  rw [getInfoByJson_nil hcpu hmemory hdisks] at hinfo
  cases hinfo
  cases hcomplete.isObject

end Monitor

end ComputerMonitor
