import ComputerMonitor.Monitor.Disks
import ComputerMonitor.Server

/-! When the documents can be written as text, for the texts that `df` and `/proc/cpuinfo` may
hold. -/

namespace ComputerMonitor

open Bytes Stdio Assoc

/-! ### Strings that can be written -/

theorem utf8_of_ascii {s : Bytes} (h : Utf8.Ascii s) : Utf8 s :=
  (Utf8.accepts_iff s).mp (Utf8.accepts_ascii h)

theorem Bytes.Blank.ascii {s : Bytes} (h : Blank s) : Utf8.Ascii s := by
  intro b hb
  have hspace := h b hb
  simp [isSpace, UInt8.le_iff_toNat_le, ← UInt8.toNat_inj] at *
  omega

theorem utf8_append_ascii {p s q : Bytes} (hp : Utf8.Ascii p) (hq : Utf8.Ascii q) :
    Utf8 (p ++ s ++ q) ↔ Utf8 s := by
  rw [← Utf8.accepts_iff, ← Utf8.accepts_iff, Utf8.accepts_append_ascii hp hq]

/-- Trimming makes no difference. -/
theorem utf8_stringTrimmed (s : Bytes) : Utf8 (stringTrimmed s) ↔ Utf8 s := by
  obtain ⟨p, q, hs, hp, hq⟩ := exists_stringTrimmed s
  rw [← utf8_append_ascii hp.ascii hq.ascii, ← hs]

theorem ascii_toFixed (d : ℕ) (x : Double) : Utf8.Ascii (Double.toFixed d x) := by
  intro b hb
  have hlt := Double.toFixed_lt_128 d x b hb
  rw [UInt8.lt_iff_toNat_lt] at hlt
  rw [UInt8.le_iff_toNat_le]
  have : (0x80 : UInt8).toNat = 128 := rfl
  have : (0x7f : UInt8).toNat = 127 := rfl
  omega

theorem ascii_append {s t : Bytes} (hs : Utf8.Ascii s) (ht : Utf8.Ascii t) :
    Utf8.Ascii (s ++ t) := by
  intro b hb
  rcases List.mem_append.mp hb with hb | hb
  · exact hs b hb
  · exact ht b hb

theorem ascii_decimal (n : ℕ) : Utf8.Ascii (decimal n) := by
  intro b hb
  have hdigit := decimal_digits n b hb
  simp [isDigit, UInt8.le_iff_toNat_le] at *
  omega

namespace CPUPrivate

/-- The part of the last of some lines that is kept can be written. -/
theorem utf8_lastValue (lines : List Bytes) :
    Utf8 (lastValue [] lines) ↔ ∀ line ∈ lines.getLast?, Utf8 (afterColon (cstr line)) := by
  cases h : lines.getLast? with
  | none => simp [lastValue, h, utf8_of_ascii (s := []) (by simp [Utf8.Ascii])]
  | some line => simp [lastValue, h, value, utf8_stringTrimmed]

end CPUPrivate

namespace Monitor

open Json

/-- The keys of all documents. -/
theorem utf8_key : ∀ key ∈ ["cpu", "modelName", "baseClock", "usage", "memory", "total", "unused",
    "name", "used", "data", "list", "diskPosition", "diskCapacity", "diskSpace", "diskState",
    "enable", "testProgress", "testResult", "lastCount", "useCount", "readIo", "writeIo"],
    Utf8 (ascii key) := by
  intro key hkey
  apply utf8_of_ascii
  revert key
  simp [Utf8.Ascii, ascii]

theorem writable_cpuEntry (modelName baseClock : Bytes) (usage : Double) :
    (cpuEntry modelName baseClock (CPUMonitor.getCpuUsage usage)).Writable ↔
      Utf8 modelName ∧ Utf8 baseClock := by
  have husage : Utf8 (CPUMonitor.getCpuUsage usage) :=
    utf8_of_ascii (ascii_append (by simp [Utf8.Ascii, ascii]) (ascii_toFixed 2 usage))
  rw [cpuEntry_eq, writable_object]
  simp [husage, utf8_key, and_comm]

/-- All strings in it are made from numbers. -/
theorem writable_getMemory {r : Readings} {memory : Json} (h : getMemory r = some memory) :
    memory.Writable := by
  simp only [getMemory, Option.bind_eq_bind, Option.bind_eq_some_iff, null_set,
    Option.some.injEq] at h
  obtain ⟨total, -, unused, -, usage, husage, rfl⟩ := h
  obtain ⟨memInfo, -, rfl⟩ := Option.map_eq_some_iff.mp husage
  have hascii : Utf8 (ascii " " ++ Double.toFixed 2
      (((MemoryPrivate.used memInfo).toNat : Double) / (memInfo.memTotal.toNat : Double))) :=
    utf8_of_ascii (ascii_append (by simp [Utf8.Ascii, ascii]) (ascii_toFixed 2 _))
  simp [writable_object, memoryEntry_eq, hascii, utf8_key]

theorem writable_diskEntry (it : DFStructInfo) :
    (diskEntry it).Writable ↔ Utf8 it.mounted.str := by
  rw [diskEntry_eq, writable_object]
  simp [utf8_key]

theorem utf8_diskName (num : ℕ) : Utf8 (diskName num) :=
  utf8_of_ascii (ascii_append (by simp [Utf8.Ascii, ascii]) (ascii_decimal num))

theorem writable_diskMembers (num : ℕ) (disks : List DFStructInfo) :
    (∀ m ∈ diskMembers num disks, Utf8 m.1 ∧ m.2.Writable) ↔
      ∀ it ∈ disks, Utf8 it.mounted.str := by
  induction disks generalizing num with
  | nil => simp [diskMembers]
  | cons it disks ih => simp only [diskMembers, List.forall_mem_cons, ih, utf8_diskName,
      writable_diskEntry, true_and]

theorem writable_diskPatch (disks : List DFStructInfo) :
    (object (diskPatch disks)).Writable ↔ ∀ it ∈ disks, Utf8 it.mounted.str := by
  rw [diskPatch, writable_insertAll (by simpa using nodup_keys_diskMembers 0 disks),
    writable_object, writable_diskMembers]
  simp [writable_object]

theorem Holds.writable_iff {key : Bytes} {j : Json} (h : Holds key j) :
    j.Writable ↔ ∀ m ∈ j.members, Utf8 m.1 ∧ m.2.Writable := by
  obtain ⟨e, -, rfl⟩ := h
  exact writable_object _

/-- The merged document is written like its three parts. -/
theorem writable_merged {cpu memory : Json} (hcpu : Holds (ascii "cpu") cpu)
    (hmemory : Holds (ascii "memory") memory) (disks : List DFStructInfo) :
    (object (insertAll (diskPatch disks) (cpu.members ++ memory.members))).Writable ↔
      (∀ it ∈ disks, Utf8 it.mounted.str) ∧ cpu.Writable ∧ memory.Writable := by
  rw [writable_insertAll (nodup_diskPatch (keys_append hcpu hmemory)), writable_diskPatch,
    writable_object, List.forall_mem_append, hcpu.writable_iff, hmemory.writable_iff]

theorem writable_entry (it : DFStructInfo) : (entry it).Writable ↔ Utf8 it.mounted.str := by
  have hfixed : ∀ x, Utf8 (Double.toFixed 6 x) := fun x => utf8_of_ascii (ascii_toFixed 6 x)
  rw [entry, writable_object]
  simp [hfixed, utf8_key]

theorem writable_disksInfoJson {disks : List DFStructInfo} {total : Double} {j : Json}
    (h : disksInfoJson disks total = some j) :
    j.Writable ↔ ∀ it ∈ disks, Utf8 it.mounted.str := by
  rw [disksInfoJson_eq, Option.some.injEq] at h
  rw [← h]
  by_cases hd : disks = []
  · simp [hd, writable_object, writable_array, utf8_key]
  · simp [hd, writable_object, writable_array, writable_entry, utf8_key]

theorem disksIO_eq (r : Readings) : disksIO r =
    some (.object [(ascii "data", .object [(ascii "readIo", .numberFloat r.diskIO.1),
      (ascii "writeIo", .numberFloat r.diskIO.2)])]) := rfl

theorem writable_overviewJson {lastCount useCount : Double} {j : Json}
    (h : overviewJson lastCount useCount = some j) : j.Writable := by
  rw [overviewJson_eq, Option.some.injEq] at h
  rw [← h]
  simp [writable_object, utf8_key]

theorem writable_disksIO {r : Readings} {j : Json} (h : disksIO r = some j) : j.Writable := by
  rw [disksIO_eq, Option.some.injEq] at h
  rw [← h]
  simp [writable_object, utf8_key]

end Monitor

namespace Server

open Json DiskPrivate

/-- What the requests find: one listing, with single words as its mount points, and one text of
`/proc/cpuinfo`. -/
structure Finds (r : Readings) (l : DfListing) (cpuinfo : Bytes) : Prop where
  df : r.df = fun _ => .ofText l.text
  cpuinfo : r.cpuinfo = fun _ => .ofText cpuinfo
  words : ∀ row ∈ l.rows, Solid row.mounted

def MountsValid (l : DfListing) : Prop := ∀ row ∈ l.devRows, Utf8 (cstr row.mounted)

/-- The line of a name that is kept is well-formed behind its colon. -/
def CpuValid (cpuinfo : Bytes) : Prop :=
  (∀ line ∈ ((CPUPrivate.counted 2 (pieces 1023 cpuinfo)).filter CPUPrivate.isModelName).getLast?,
      Utf8 (CPUPrivate.afterColon (cstr line))) ∧
    ∀ line ∈ ((CPUPrivate.counted 2 (pieces 1023 cpuinfo)).filter CPUPrivate.isCpuMhz).getLast?,
      Utf8 (CPUPrivate.afterColon (cstr line))

/-- The monitor has nothing but texts from `/proc/cpuinfo`. -/
structure KeptFrom (m : Monitor) (cpuinfo : Bytes) : Prop where
  modelName : m.cpuMonitor.modelName = [] ∨
    m.cpuMonitor.modelName = CPUPrivate.modelNameOf cpuinfo
  baseClock : m.cpuMonitor.baseClock = [] ∨ m.cpuMonitor.baseClock = CPUPrivate.cpuMhzOf cpuinfo

theorem cpuValid_iff (cpuinfo : Bytes) :
    CpuValid cpuinfo ↔
      Utf8 (CPUPrivate.modelNameOf cpuinfo) ∧ Utf8 (CPUPrivate.cpuMhzOf cpuinfo) := by
  rw [CpuValid, CPUPrivate.modelNameOf, CPUPrivate.cpuMhzOf, CPUPrivate.utf8_lastValue,
    CPUPrivate.utf8_lastValue]

theorem kept_eq {old new : Bytes} (h : old = [] ∨ old = new) : CPUMonitor.kept old new = new := by
  rw [CPUMonitor.kept]
  rcases h with rfl | rfl
  · simp
  · simp

theorem forall_disk_iff {l : DfListing} (h : ∀ row ∈ l.rows, Solid row.mounted) :
    (∀ it ∈ l.devRows.map DfRow.disk, Utf8 it.mounted.str) ↔ MountsValid l := by
  rw [List.forall_mem_map]
  refine forall_congr' fun row => forall_congr' fun hrow => ?_
  have hstr : row.disk.mounted.str = cstr row.mounted := by
    change cstr row.firstWord = cstr row.mounted
    rw [DfRow.firstWord_eq (h row (DfListing.mem_of_mem_devRows hrow))]
  rw [hstr]

theorem getDisksByDf_eq {r : Readings} {l : DfListing} {cpuinfo : Bytes} (h : Finds r l cpuinfo)
    (i : Fin 2) : DiskMonitor.getDisksByDf (r.df i) = some (l.devRows.map DfRow.disk) := by
  rw [h.df]
  exact l.diskInfoByDf_text h.words

/-- The document of `GetCPU` and what the monitor keeps of it. -/
theorem exists_getCPU {r : Readings} {l : DfListing} {cpuinfo : Bytes} (h : Finds r l cpuinfo)
    {m : Monitor} (hm : KeptFrom m cpuinfo) :
    ∃ cpu m', m.getCPU r = some (cpu, m') ∧ KeptFrom m' cpuinfo ∧
      (cpu.Writable ↔ CpuValid cpuinfo) := by
  have hcpu := Monitor.getCPU_ofText m (s := fun _ => cpuinfo) h.cpuinfo
  simp only [kept_eq hm.modelName, kept_eq hm.baseClock] at hcpu
  refine ⟨_, _, hcpu, ⟨.inr rfl, .inr rfl⟩, ?_⟩
  rw [cpuValid_iff, ← Monitor.writable_cpuEntry _ _ r.cpuUsage, writable_object]
  simp [Monitor.utf8_key]

theorem isSome_reply (fmt : FloatFormat) (c : Command) (d : Desk) :
    (reply fmt c d).isSome = true ↔
      ∃ j m, document c d.monitor (d.readings 0) = some (j, m) ∧ j.Writable := by
  cases hdoc : document c d.monitor (d.readings 0) with
  | none => simp [reply, hdoc]
  | some p =>
    obtain ⟨j, m⟩ := p
    rw [Option.isSome_iff_exists]
    simp [reply, hdoc, Option.bind_eq_some_iff, ← isSome_dump_iff fmt, Option.isSome_iff_exists]

theorem isSome_requestBaseInfo (fmt : FloatFormat) {d : Desk} {l : DfListing} {cpuinfo : Bytes}
    (h : Finds (d.readings 0) l cpuinfo) (hm : KeptFrom d.monitor cpuinfo) :
    (reply fmt .requestBaseInfo d).isSome = true ↔
      (l.devRows ≠ [] → MountsValid l ∧ CpuValid cpuinfo) := by
  obtain ⟨cpu, m', hcpu, -, hwritable⟩ := exists_getCPU h hm
  obtain ⟨memory, hmemory⟩ := Monitor.exists_getMemory (d.readings 0)
  have hdisks := getDisksByDf_eq h 0
  rw [isSome_reply, document]
  by_cases hne : l.devRows = []
  · rw [hne, List.map_nil] at hdisks
    simp [Monitor.getInfoByJson_nil hcpu hmemory hdisks, hne]
  · have hne' : l.devRows.map DfRow.disk ≠ [] := by simpa using hne
    have hinfo := Monitor.getInfoByJson_of_ne_nil hcpu hmemory hdisks hne'
    have hmerged := Monitor.writable_merged (Monitor.holds_getCPU hcpu)
      (Monitor.holds_getMemory hmemory) (l.devRows.map DfRow.disk)
    rw [forall_disk_iff h.words, hwritable] at hmerged
    simp [hinfo, hmerged, hne, Monitor.writable_getMemory hmemory]

theorem isSome_disksOverview (fmt : FloatFormat) {d : Desk} {l : DfListing} {cpuinfo : Bytes}
    (h : Finds (d.readings 0) l cpuinfo) : (reply fmt .disksOverview d).isSome = true := by
  have hdisks := getDisksByDf_eq h
  have hover : Monitor.diskInfoOverview (d.readings 0) =
      Monitor.overviewJson (DiskMonitor.total (l.devRows.map DfRow.disk))
        (DiskMonitor.used (l.devRows.map DfRow.disk)) := by
    simp only [DiskMonitor.getDisksByDf] at hdisks
    simp [Monitor.diskInfoOverview, DiskMonitor.diskTotalByDf, DiskMonitor.diskUsedByDf, hdisks]
  rw [isSome_reply, document, hover, Monitor.overviewJson_eq]
  exact ⟨_, _, rfl, Monitor.writable_overviewJson (Monitor.overviewJson_eq _ _)⟩

theorem isSome_disksInfo (fmt : FloatFormat) {d : Desk} {l : DfListing} {cpuinfo : Bytes}
    (h : Finds (d.readings 0) l cpuinfo) :
    (reply fmt .disksInfo d).isSome = true ↔ MountsValid l := by
  have hinfo := Monitor.disksInfo_eq (getDisksByDf_eq h 0) (getDisksByDf_eq h 1)
  have hjson := Monitor.disksInfoJson_eq (l.devRows.map DfRow.disk)
    (DiskMonitor.total (l.devRows.map DfRow.disk))
  rw [isSome_reply, document, hinfo, hjson, ← forall_disk_iff h.words,
    ← Monitor.writable_disksInfoJson hjson]
  simp only [Option.map_some, Option.some.injEq, Prod.mk.injEq]
  constructor
  · rintro ⟨j, m, ⟨rfl, -⟩, hj⟩
    exact hj
  · exact fun hj => ⟨_, _, ⟨rfl, rfl⟩, hj⟩

theorem isSome_diskIO (fmt : FloatFormat) (d : Desk) :
    (reply fmt Command.diskIO d).isSome = true := by
  rw [isSome_reply, document, Monitor.disksIO_eq]
  exact ⟨_, _, rfl, Monitor.writable_disksIO (Monitor.disksIO_eq _)⟩

/-- All four branches of the loop, from any state of the monitor. -/
theorem forall_reply_iff (fmt : FloatFormat) {d : Desk} {l : DfListing} {cpuinfo : Bytes}
    (h : Finds (d.readings 0) l cpuinfo) (hm : KeptFrom d.monitor cpuinfo) :
    (∀ c, (reply fmt c d).isSome = true) ↔
      (l.devRows ≠ [] → MountsValid l ∧ CpuValid cpuinfo) := by
  rw [← isSome_requestBaseInfo fmt h hm]
  refine ⟨fun hall => hall .requestBaseInfo, fun hbase c => ?_⟩
  cases c with
  | requestBaseInfo => exact hbase
  | disksOverview => exact isSome_disksOverview fmt h
  | disksInfo =>
    rw [isSome_disksInfo fmt h]
    rw [isSome_requestBaseInfo fmt h hm] at hbase
    intro row hrow
    exact (hbase (List.ne_nil_of_mem hrow)).1 row hrow
  | diskIO => exact isSome_diskIO fmt d

theorem exists_getDisk {r : Readings} {l : DfListing} {cpuinfo : Bytes}
    (h : Finds r l cpuinfo) :
    ∃ disk, Monitor.getDisk r = some disk ∧ (disk.Writable ↔ MountsValid l) := by
  have hdisks := getDisksByDf_eq h 0
  rw [Monitor.getDisk, hdisks, ← forall_disk_iff h.words]
  by_cases hne : l.devRows.map DfRow.disk = []
  · exact ⟨.null, by simp [hne, Monitor.addDisks_null], by simp [hne]⟩
  · exact ⟨_, by simp [hne, Monitor.addDisks_null, Monitor.diskPatch],
      Monitor.writable_diskPatch _⟩

/-- What is logged before the loop goes through the encoder as well. -/
theorem exists_startup_iff (fmt : FloatFormat) {r : Readings} {l : DfListing} {cpuinfo : Bytes}
    (h : Finds r l cpuinfo) :
    (∃ m, startup fmt r = some m ∧ KeptFrom m cpuinfo) ↔ MountsValid l ∧ CpuValid cpuinfo := by
  obtain ⟨memory, hmemory⟩ := Monitor.exists_getMemory r
  obtain ⟨disk, hdisk, hmounts⟩ := exists_getDisk h
  obtain ⟨cpu, m, hcpu, hkept, hvalid⟩ := exists_getCPU h (m := Monitor.create) ⟨.inl rfl, .inl rfl⟩
  have hlogged := (isSome_dump_iff fmt memory).mpr (Monitor.writable_getMemory hmemory)
  rw [← hmounts, ← hvalid, ← isSome_dump_iff fmt, ← isSome_dump_iff fmt]
  simp only [Option.isSome_iff_exists] at hlogged ⊢
  obtain ⟨text, htext⟩ := hlogged
  constructor
  · rintro ⟨m, hstart, -⟩
    simp only [startup, hmemory, hdisk, hcpu, Option.bind_eq_bind,
      Option.bind_eq_some_iff] at hstart
    simp only [Option.some.injEq] at hstart
    obtain ⟨_, rfl, -, -, _, rfl, disktext, hdisktext, _, rfl, cputext, hcputext, -⟩ := hstart
    exact ⟨⟨disktext, hdisktext⟩, ⟨cputext, hcputext⟩⟩
  · rintro ⟨⟨disktext, hdisktext⟩, ⟨cputext, hcputext⟩⟩
    refine ⟨m, ?_, hkept⟩
    simp [startup, hmemory, htext, hdisk, hdisktext, hcpu, hcputext]

theorem keptFrom_startup {fmt : FloatFormat} {r : Readings} {l : DfListing} {cpuinfo : Bytes}
    (h : Finds r l cpuinfo) {m : Monitor} (hm : startup fmt r = some m) : KeptFrom m cpuinfo := by
  obtain ⟨cpu, m', hcpu, hkept, -⟩ := exists_getCPU h (m := Monitor.create) ⟨.inl rfl, .inl rfl⟩
  simp only [startup, hcpu, Option.bind_eq_bind, Option.bind_eq_some_iff, Option.some.injEq] at hm
  obtain ⟨-, -, -, -, -, -, -, -, _, rfl, -, -, hm⟩ := hm
  cases hm
  exact hkept

section Loop

variable {κ σ : Type*} (S : RepSocket κ σ)

/-- The round that receives the next request comes to the `send` of its branch. -/
def ReachesSend (fmt : FloatFormat) (socket : σ) (d : Desk) : Prop :=
  ∃ t data, step S (reply fmt) (start socket d) = .inl t ∧ t.call = .send data

/-- The socket has a known request. -/
structure Requested (c : Command) (socket : σ) : Prop where
  phase : S.phase socket = .ready
  incoming : ∃ r rs, S.incoming socket = r :: rs ∧ r.first = c.text

theorem reachesSend_iff (fmt : FloatFormat) {c : Command} {socket : σ} (hs : Requested S c socket)
    (d : Desk) : ReachesSend S fmt socket d ↔ (reply fmt c d).isSome = true := by
  obtain ⟨r, rs, hincoming, hr⟩ := hs.incoming
  obtain ⟨socket', hrecv, -⟩ := S.recv_ready hs.phase hincoming
  rw [hr] at hrecv
  have hanswer : answer (reply fmt) c.text d = reply fmt c d := by
    rw [answer, dispatch_text]
  cases hreply : reply fmt c d with
  | none => simp [ReachesSend, step, start, hrecv, hanswer, hreply]
  | some p => simp [ReachesSend, step, start, hrecv, hanswer, hreply]

/-- The server gets through its start and then answers all four requests exactly if the texts that
it sends are valid; a server that runs already also answers without any device. -/
theorem reachesSend_all_iff (fmt : FloatFormat) {socket : Command → σ}
    (hs : ∀ c, Requested S c (socket c)) {r : Readings} {l : DfListing} {cpuinfo : Bytes}
    (h : Finds r l cpuinfo) :
    ((∃ m, startup fmt r = some m ∧ ∀ c, ReachesSend S fmt (socket c) ⟨m, fun _ => r⟩) ↔
        MountsValid l ∧ CpuValid cpuinfo) ∧
      ∀ d : Desk, d.readings 0 = r → KeptFrom d.monitor cpuinfo →
        ((∀ c, ReachesSend S fmt (socket c) d) ↔
          (l.devRows ≠ [] → MountsValid l ∧ CpuValid cpuinfo)) := by
  have hall : ∀ d : Desk, d.readings 0 = r → KeptFrom d.monitor cpuinfo →
      ((∀ c, ReachesSend S fmt (socket c) d) ↔
        (l.devRows ≠ [] → MountsValid l ∧ CpuValid cpuinfo)) := by
    intro d hd hm
    rw [← forall_reply_iff fmt (hd ▸ h) hm]
    exact forall_congr' fun c => reachesSend_iff S fmt (hs c) d
  refine ⟨?_, hall⟩
  constructor
  · rintro ⟨m, hm, -⟩
    exact (exists_startup_iff fmt h).mp ⟨m, hm, keptFrom_startup h hm⟩
  · intro hvalid
    obtain ⟨m, hm, hkept⟩ := (exists_startup_iff fmt h).mpr hvalid
    exact ⟨m, hm, (hall ⟨m, fun _ => r⟩ rfl hkept).mpr fun _ => hvalid⟩

end Loop

def sampleCpuinfo : Bytes := ascii "model name\t: Intel(R) Xeon(R)\ncpu MHz\t\t: 2400.000\n"

theorem finds_sampleReadings {l : DfListing} (h : ∀ row ∈ l.rows, Solid row.mounted) :
    Finds (Monitor.sampleReadings l) l sampleCpuinfo := ⟨rfl, rfl, h⟩

def sampleSocket (c : Command) : Rep ℕ := Rep.ofQueue [⟨0, c.text, []⟩]

theorem requested_sampleSocket (c : Command) : Requested (Rep.socket ℕ) c (sampleSocket c) :=
  ⟨rfl, _, _, rfl, rfl⟩

/-- A disk of whole terabytes. -/
def bigDisk : DfRow :=
  { mydisk with
    blocks := .ofNat (3 * 2 ^ 30), used := .ofNat (2 ^ 30), available := .ofNat (2 ^ 31) }

theorem reachesSend_all_iff_bigDisk :
    ∃ m, startup sampleFormat (Monitor.sampleReadings (sampleListing [bigDisk])) = some m ∧
      ∀ c, ReachesSend (Rep.socket ℕ) sampleFormat (sampleSocket c)
        ⟨m, fun _ => Monitor.sampleReadings (sampleListing [bigDisk])⟩ := by
  have hmounts : MountsValid (sampleListing [bigDisk]) := by
    intro row hrow
    have hmem := DfListing.mem_of_mem_devRows hrow
    simp only [sampleListing, List.mem_singleton] at hmem
    rw [hmem]
    exact (Utf8.accepts_iff _).mp (by decide +kernel)
  have hcpu : CpuValid sampleCpuinfo := by
    have hpieces : pieces 1023 sampleCpuinfo =
        [ascii "model name\t: Intel(R) Xeon(R)" ++ [newline],
          ascii "cpu MHz\t\t: 2400.000" ++ [newline]] := by
      have htext : sampleCpuinfo = unlines [ascii "model name\t: Intel(R) Xeon(R)",
          ascii "cpu MHz\t\t: 2400.000"] ++ [] := by decide
      rw [htext, pieces_unlines (by decide), pieces_nil]
      rfl
    simp only [CpuValid, ← Utf8.accepts_iff, hpieces]
    decide +kernel
  exact (reachesSend_all_iff (Rep.socket ℕ) sampleFormat requested_sampleSocket
    (finds_sampleReadings (by decide))).1.mpr ⟨hmounts, hcpu⟩

/-- A disk whose mount point is a single byte that no UTF-8 text has. -/
def badMount : DfRow := sampleRow sdb [0xff] (by decide +kernel)

/-- Its reply to `RequestBaseInfo` cannot be encoded. -/
theorem not_reachesSend_badMount :
    ¬∀ (r : Readings) (l : DfListing) (cpuinfo : Bytes), Finds r l cpuinfo →
      ∀ d : Desk, d.readings 0 = r → KeptFrom d.monitor cpuinfo →
        ∀ c, ReachesSend (Rep.socket ℕ) sampleFormat (sampleSocket c) d := by
  intro h
  have hfinds : Finds (Monitor.sampleReadings (sampleListing [badMount]))
      (sampleListing [badMount]) sampleCpuinfo := finds_sampleReadings (by decide)
  have hmem : badMount ∈ (sampleListing [badMount]).devRows :=
    List.mem_filter.mpr ⟨by simp [sampleListing], by decide⟩
  have hreply := h _ _ _ hfinds ⟨Monitor.create, fun _ => Monitor.sampleReadings
    (sampleListing [badMount])⟩ rfl ⟨.inl rfl, .inl rfl⟩ .disksInfo
  rw [reachesSend_iff _ _ (requested_sampleSocket _), isSome_disksInfo _ hfinds] at hreply
  have hvalid := hreply badMount hmem
  rw [← Utf8.accepts_iff] at hvalid
  exact absurd hvalid (by decide +kernel)

end Server

end ComputerMonitor
