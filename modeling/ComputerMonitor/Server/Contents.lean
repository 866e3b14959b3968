import ComputerMonitor.MemoryMonitor.Figures
import ComputerMonitor.Server.Encoding
import ComputerMonitor.Server.ReadBack
import ComputerMonitor.Support.Rendering

/-! What the replies of whole runs tell of the files and listings that the server has read. -/

namespace ComputerMonitor

open Bytes Assoc

/-- The number that a string spells, with nothing behind it. -/
def JsonTree.figure? : JsonTree → Option ℚ
  | .string s =>
    match Scan.readDouble s with
    | some (.finite q, []) => some q
    | _ => none
  | _ => none

/-- A rendered number in a string is the number up to its rounding. -/
theorem Json.figure?_toFixed (ws : Bytes) (hws : Blank ws) (d : ℕ) (q : ℚ) :
    JsonTree.figure? (.string (ws ++ Double.toFixed d (.finite q))) =
      some (Double.fixed d q).value := by
  have hread := Double.readDouble_toFixed hws d q (by simp [Ends] : Ends [])
  rw [List.append_nil] at hread
  simp only [JsonTree.figure?, hread]

namespace Server

open DiskPrivate

/-! ### The disks in a reply to `DisksInfo` -/

structure DiskView where
  position : Bytes
  capacity : ℚ
  space : ℚ

def diskView (t : JsonTree) : Option DiskView := do
  let position ← (t.member (ascii "diskPosition")).bind JsonTree.text?
  let capacity ← (t.member (ascii "diskCapacity")).bind JsonTree.figure?
  let space ← (t.member (ascii "diskSpace")).bind JsonTree.figure?
  return ⟨position, capacity, space⟩

/-- The disks and the text of the total. -/
def disksView (data : Bytes) : Option (List DiskView × Bytes) := do
  let t ← JsonTree.ofText data
  match t.member (ascii "data") with
  | some (.array [list, .array [_, .number total]]) =>
    let views ← (JsonTree.elements (list.member (ascii "list"))).mapM diskView
    return (views, total)
  | _ => none

/-- A disk's row, with the counts in TB up to the last of six digits. -/
structure DiskView.Shows (v : DiskView) (row : DfRow) : Prop where
  position : v.position = cstr row.mounted
  capacity : |v.capacity - row.blocks.value / 2 ^ 30| ≤ 1 / 2 / 10 ^ 6
  space : |v.space - row.available.value / 2 ^ 30| ≤ 1 / 2 / 10 ^ 6

def viewOf (row : DfRow) : DiskView :=
  ⟨cstr row.mounted, (Double.fixed 6 (row.blocks.value / 2 ^ 30)).value,
    (Double.fixed 6 (row.available.value / 2 ^ 30)).value⟩

theorem shows_viewOf (row : DfRow) : (viewOf row).Shows row :=
  ⟨rfl, Double.abs_value_fixed_sub_le (by decide) _, Double.abs_value_fixed_sub_le (by decide) _⟩

theorem finite_div_TB (q : ℚ) : Double.finite q / Monitor.TB = .finite (q / 2 ^ 30) := by
  rw [Monitor.TB, Double.finite_div _ (by norm_num)]
  norm_num

theorem diskView_entry (fmt : Json.FloatFormat) {row : DfRow} (hrow : Solid row.mounted) :
    diskView (Json.plain fmt (Monitor.entry row.disk)) = some (viewOf row) := by
  have hmounted : row.disk.mounted.str = cstr row.mounted := by
    change cstr row.firstWord = cstr row.mounted
    rw [DfRow.firstWord_eq hrow]
  have hposition : find (ascii "diskPosition") (Monitor.entry row.disk).members =
      some (.string row.disk.mounted.str) := rfl
  have hcapacity : find (ascii "diskCapacity") (Monitor.entry row.disk).members =
      some (.string (Double.toFixed 6 (row.disk.blocks / Monitor.TB))) := rfl
  have hspace : find (ascii "diskSpace") (Monitor.entry row.disk).members =
      some (.string (Double.toFixed 6 (row.disk.available / Monitor.TB))) := rfl
  have hblocks : row.disk.blocks = .finite row.blocks.value := rfl
  have havailable : row.disk.available = .finite row.available.value := rfl
  have hfigure : ∀ q, JsonTree.figure? (.string (Double.toFixed 6 (.finite q))) =
      some (Double.fixed 6 q).value := Json.figure?_toFixed [] Blank.nil 6
  rw [hblocks, finite_div_TB] at hcapacity
  rw [havailable, finite_div_TB] at hspace
  simp only [diskView, Json.member_plain, hposition, hcapacity, hspace, Option.map_some, Json.plain,
    Option.bind_some, JsonTree.text?, hfigure, hmounted]
  rfl

theorem mapM_diskView (fmt : Json.FloatFormat) {rows : List DfRow}
    (h : ∀ row ∈ rows, Solid row.mounted) :
    (Json.plainElements fmt ((rows.map DfRow.disk).map Monitor.entry)).mapM diskView =
      some (rows.map viewOf) := by
  induction rows with
  | nil => rfl
  | cons row rows ih =>
    rw [List.map_cons, List.map_cons, Json.plainElements, List.mapM_cons,
      diskView_entry fmt (h row (by simp)), ih fun r hr => h r (by simp [hr])]
    rfl

/-- What the disks of a listing amount to in TB. -/
def inTB (count : DfRow → Scan.Decimal) (l : DfListing) : ℚ :=
  (l.devRows.map fun row => (count row).value / 2 ^ 30).sum

theorem foldl_div_TB {get : DFStructInfo → Double} {count : DfRow → Scan.Decimal}
    (h : ∀ row, get row.disk = .finite (count row).value) (rows : List DfRow) (q : ℚ) :
    (rows.map DfRow.disk).foldl (fun total it => total + get it / DiskMonitor.TB) (.finite q) =
      .finite (q + (rows.map fun row => (count row).value / 2 ^ 30).sum) := by
  induction rows generalizing q with
  | nil => simp
  | cons row rows ih =>
    have hrow : get row.disk / DiskMonitor.TB = .finite ((count row).value / 2 ^ 30) := by
      rw [h]
      exact finite_div_TB _
    rw [List.map_cons, List.foldl_cons, hrow, Double.finite_add, ih, List.map_cons, List.sum_cons,
      add_assoc]

theorem total_devRows (l : DfListing) :
    DiskMonitor.total (l.devRows.map DfRow.disk) = .finite (inTB (·.blocks) l) := by
  have htotal : DiskMonitor.total (l.devRows.map DfRow.disk) = .finite (0 + inTB (·.blocks) l) :=
    foldl_div_TB (fun _ => rfl) l.devRows 0
  rwa [zero_add] at htotal

theorem used_devRows (l : DfListing) :
    DiskMonitor.used (l.devRows.map DfRow.disk) = .finite (inTB (·.used) l) := by
  have hused : DiskMonitor.used (l.devRows.map DfRow.disk) = .finite (0 + inTB (·.used) l) :=
    foldl_div_TB (fun _ => rfl) l.devRows 0
  rwa [zero_add] at hused

theorem member_data (fmt : Json.FloatFormat) (list : Json) (q : ℚ) :
    (Json.plain fmt (.object [(ascii "data",
        .array [list, .array [.string (ascii "total"), .numberFloat (.finite q)]])])).member
      (ascii "data") =
      some (.array [Json.plain fmt list,
        .array [.string (ascii "total"), .number (fmt.text q)]]) := by
  rw [Json.member_plain]
  rfl

theorem elements_list (fmt : Json.FloatFormat) (disks : List DFStructInfo) :
    JsonTree.elements ((Json.plain fmt (if disks = [] then .null
        else .object [(ascii "list", .array (disks.map Monitor.entry))])).member (ascii "list")) =
      Json.plainElements fmt (disks.map Monitor.entry) := by
  split_ifs with hnil
  · rw [hnil]
    rfl
  · rw [Json.member_plain]
    rfl

theorem disksView_dump {fmt : Json.FloatFormat} (hfmt : fmt.Numeric) {r : Readings} {l : DfListing}
    {cpuinfo : Bytes} (hfinds : Finds r l cpuinfo) {j : Json} (hj : Monitor.disksInfo r = some j)
    {data : Bytes} (hdata : j.dump fmt = some data) :
    disksView data = some (l.devRows.map viewOf, fmt.text (inTB (·.blocks) l)) := by
  have hsolid : ∀ row ∈ l.devRows, Solid row.mounted :=
    fun row hrow => hfinds.words row (DfListing.mem_of_mem_devRows hrow)
  rw [Monitor.disksInfo_eq (getDisksByDf_eq hfinds 0) (getDisksByDf_eq hfinds 1), total_devRows,
    Monitor.disksInfoJson_eq, Option.some.injEq] at hj
  subst hj
  rw [disksView, Json.ofText_dump hfmt hdata, Option.bind_eq_bind, Option.bind_some]
  simp only [member_data, elements_list, mapM_diskView fmt hsolid]
  rfl

/-- The disks that a reader of a reply sees are those of the listing. -/
structure Agrees (l : DfListing) (views : List DiskView) : Prop where
  shows : List.Forall₂ DiskView.Shows views l.devRows
  total : |(views.map (·.capacity)).sum - inTB (·.blocks) l| ≤ l.devRows.length * (1 / 2 / 10 ^ 6)

theorem agrees_viewOf (l : DfListing) : Agrees l (l.devRows.map viewOf) := by
  constructor
  · rw [List.forall₂_map_left_iff, List.forall₂_same]
    exact fun row _ => shows_viewOf row
  · rw [inTB]
    induction l.devRows with
    | nil => simp
    | cons row rows ih =>
      have hrow := (shows_viewOf row).capacity
      simp only [List.map_cons, List.sum_cons, List.length_cons] at ih ⊢
      push_cast
      have hsplit : (viewOf row).capacity + ((rows.map viewOf).map (·.capacity)).sum -
          (row.blocks.value / 2 ^ 30 + (rows.map fun row => row.blocks.value / 2 ^ 30).sum) =
          ((viewOf row).capacity - row.blocks.value / 2 ^ 30) +
            (((rows.map viewOf).map (·.capacity)).sum -
              (rows.map fun row => row.blocks.value / 2 ^ 30).sum) := by ring
      rw [hsplit]
      refine (abs_add_le _ _).trans ?_
      linarith

/-! ### The figures in a reply to `RequestBaseInfo` -/

/-- A disk's figures in GB, as they are printed. -/
structure DiskTexts where
  name : Bytes
  total : Bytes
  unused : Bytes
  used : Bytes

structure InfoView where
  cpuUsage : ℚ
  memoryTotal : Bytes
  memoryUnused : Bytes
  memoryUsage : ℚ
  disks : List DiskTexts

def diskTexts (t : JsonTree) : Option DiskTexts := do
  let name ← (t.member (ascii "name")).bind JsonTree.text?
  let total ← (t.member (ascii "total")).bind JsonTree.number?
  let unused ← (t.member (ascii "unused")).bind JsonTree.number?
  let used ← (t.member (ascii "used")).bind JsonTree.number?
  return ⟨name, total, unused, used⟩

/-- All members but two are disks. -/
def infoView (data : Bytes) : Option InfoView := do
  let t ← JsonTree.ofText data
  let cpu ← t.member (ascii "cpu")
  let cpuUsage ← (cpu.member (ascii "usage")).bind JsonTree.figure?
  let memory ← t.member (ascii "memory")
  let memoryTotal ← (memory.member (ascii "total")).bind JsonTree.number?
  let memoryUnused ← (memory.member (ascii "unused")).bind JsonTree.number?
  let memoryUsage ← (memory.member (ascii "usage")).bind JsonTree.figure?
  let disks ← (List.range (t.members.length - 2)).mapM fun num =>
    (t.member (Monitor.diskName num)).bind diskTexts
  return ⟨cpuUsage, memoryTotal, memoryUnused, memoryUsage, disks⟩

def textsOf (fmt : Json.FloatFormat) (row : DfRow) : DiskTexts :=
  ⟨cstr row.mounted, fmt.text (row.blocks.value / 2 ^ 20), fmt.text (row.available.value / 2 ^ 20),
    fmt.text (row.used.value / 2 ^ 20)⟩

theorem diskTexts_diskEntry (fmt : Json.FloatFormat) {row : DfRow} (hrow : Solid row.mounted) :
    diskTexts (Json.plain fmt (Monitor.diskEntry row.disk)) = some (textsOf fmt row) := by
  have hmounted : row.disk.mounted.str = cstr row.mounted := by
    change cstr row.firstWord = cstr row.mounted
    rw [DfRow.firstWord_eq hrow]
  have hscale : ∀ q : ℚ, Double.finite q / .finite (2 ^ 20) = .finite (q / 2 ^ 20) :=
    fun q => Double.finite_div q (by norm_num)
  have hblocks : row.disk.blocks = .finite row.blocks.value := rfl
  have havailable : row.disk.available = .finite row.available.value := rfl
  have hused : row.disk.used = .finite row.used.value := rfl
  obtain ⟨hname, htotal, hunused, hused'⟩ := Monitor.holdsDisk_diskEntry row.disk
  rw [hblocks, hscale] at htotal
  rw [havailable, hscale] at hunused
  rw [hused, hscale] at hused'
  simp only [diskTexts, Json.member_plain, hname, htotal, hunused, hused', Option.map_some,
    Json.plain, Json.plainFloat, Option.bind_some, JsonTree.text?, JsonTree.number?, hmounted]
  rfl

/-- What a request finds of the processor and the memory: a usage, and a document with a total. -/
structure Measures (r : Readings) (usage : ℚ) (mem : Meminfo) : Prop where
  cpuUsage : r.cpuUsage = .finite usage
  meminfo : r.meminfo = fun _ => .ofText mem.text
  memTotal : 0 < mem.valueOf (ascii "MemTotal")

/-- The part of the memory that is in use, as the monitor computes it. -/
def memoryRatio (mem : Meminfo) : ℚ :=
  (MemoryPrivate.used mem.packet).toNat / mem.packet.memTotal.toNat

theorem ratio_packet {mem : Meminfo} (h : 0 < mem.valueOf (ascii "MemTotal")) :
    MemoryPrivate.ratio mem.packet = .finite (memoryRatio mem) := by
  have hpos : 0 < mem.packet.memTotal.toNat := by
    change 0 < (mem.stored (ascii "MemTotal")).toNat
    rw [mem.toNat_stored]
    omega
  rw [MemoryPrivate.ratio, Double.natCast_def, Double.natCast_def,
    Double.finite_div _ (Nat.cast_pos.mpr hpos).ne', memoryRatio]

theorem getMemory_text {r : Readings} {usage : ℚ} {mem : Meminfo} (h : Measures r usage mem) :
    Monitor.getMemory r = some (.object [(ascii "memory",
      Monitor.memoryEntry (mem.stored (ascii "MemTotal") / MemoryMonitor.GB) 0
        (ascii " " ++ Double.toFixed 2 (.finite (memoryRatio mem))))]) := by
  have husage : MemoryMonitor.getMemoryUsage (.ofText mem.text) =
      some (ascii " " ++ Double.toFixed 2 (.finite (memoryRatio mem))) := by
    rw [MemoryMonitor.getMemoryUsage, MemoryPrivate.getMemoryUsage_eq, mem.getMemoryInfo_text,
      Option.map_some, ratio_packet h.memTotal]
  simp only [Monitor.getMemory, h.meminfo, MemoryMonitor.getMemoryTotal_text,
    MemoryMonitor.getMemoryUnused_text, husage, Option.bind_eq_bind, Option.bind_some,
    Json.null_set]

/-- The figures are those of the files and the listing, the shares up to the last of two digits. -/
structure InfoView.Shows (fmt : Json.FloatFormat) (usage : ℚ) (mem : Meminfo) (l : DfListing)
    (v : InfoView) : Prop where
  cpuUsage : |v.cpuUsage - usage| ≤ 1 / 2 / 10 ^ 2
  memoryTotal : v.memoryTotal = decimal (min (mem.valueOf (ascii "MemTotal")) (2 ^ 64 - 1) / 2 ^ 20)
  memoryUnused : v.memoryUnused = decimal 0
  memoryUsage : |v.memoryUsage - memoryRatio mem| ≤ 1 / 2 / 10 ^ 2
  disks : v.disks = l.devRows.map (textsOf fmt)

theorem mapM_diskTexts {fmt : Json.FloatFormat} {rows : List DfRow} {t : JsonTree}
    (hrows : ∀ row ∈ rows, Solid row.mounted)
    (ht : ∀ num row, rows[num]? = some row →
      t.member (Monitor.diskName num) = some (Json.plain fmt (Monitor.diskEntry row.disk))) :
    ((List.range rows.length).mapM fun num => (t.member (Monitor.diskName num)).bind diskTexts) =
      some (rows.map (textsOf fmt)) := by
  induction rows using List.reverseRecOn with
  | nil => rfl
  | append_singleton rows row ih =>
    have hfront := ih (fun r hr => hrows r (by simp [hr])) fun num r hr =>
      ht num r ((List.getElem?_append_left (List.getElem?_eq_some_iff.mp hr).1).trans hr)
    have hlast := ht rows.length row (by simp)
    rw [List.length_append, List.length_singleton, List.range_succ, List.mapM_append, hfront]
    simp [hlast, diskTexts_diskEntry fmt (hrows row (by simp))]

theorem member_cpuEntry (fmt : Json.FloatFormat) (modelName baseClock usage : Bytes) :
    (Json.plain fmt (Monitor.cpuEntry modelName baseClock usage)).member (ascii "usage") =
      some (.string usage) := by
  rw [Json.member_plain]
  rfl

theorem member_memoryEntry (fmt : Json.FloatFormat) (total unused : UInt64) (usage : Bytes) :
    let memory := Json.plain fmt (Monitor.memoryEntry total unused usage)
    memory.member (ascii "total") = some (.number (decimal total.toNat)) ∧
      memory.member (ascii "unused") = some (.number (decimal unused.toNat)) ∧
      memory.member (ascii "usage") = some (.string usage) := by
  refine ⟨?_, ?_, ?_⟩ <;>
  · rw [Json.member_plain]
    rfl

theorem infoView_dump {fmt : Json.FloatFormat} (hfmt : fmt.Numeric) {m m' : Monitor} {r : Readings}
    {l : DfListing} {cpuinfo : Bytes} {usage : ℚ} {mem : Meminfo} (hfinds : Finds r l cpuinfo)
    (hmeasures : Measures r usage mem) (hne : l.devRows ≠ []) {j : Json}
    (hj : m.getInfoByJson r = some (j, m')) {data : Bytes} (hdata : j.dump fmt = some data) :
    ∃ v, infoView data = some v ∧ v.Shows fmt usage mem l := by
  obtain ⟨cpu, hcpu, -⟩ := Monitor.getInfoByJson_cases hj
  have hmemory := getMemory_text hmeasures
  have hdisks : l.devRows.map DfRow.disk ≠ [] := by simpa using hne
  rw [Monitor.getInfoByJson_of_ne_nil hcpu hmemory (getDisksByDf_eq hfinds 0) hdisks,
    Option.some.injEq, Prod.mk.injEq] at hj
  have hcomplete := Monitor.complete_insertAll (Monitor.holds_getCPU hcpu)
    (Monitor.holds_getMemory hmemory) (l.devRows.map DfRow.disk)
  rw [hj.1] at hcomplete
  obtain ⟨hobject, hkeys, hcpufind, hmemoryfind, hdiskfind⟩ := hcomplete
  obtain ⟨rfl, -, -⟩ := Monitor.getCPU_cases hcpu
  have hlength : j.members.length = l.devRows.length + 2 := by
    have hlen := hkeys.length_eq
    simpa [keys] using hlen
  have hcpumember : (j.plain fmt).member (ascii "cpu") = some (Json.plain fmt (Monitor.cpuEntry
      m'.cpuMonitor.modelName m'.cpuMonitor.baseClock (CPUMonitor.getCpuUsage r.cpuUsage))) := by
    rw [Json.member_plain, hcpufind]
    rfl
  have hmemorymember : (j.plain fmt).member (ascii "memory") = some (Json.plain fmt
      (Monitor.memoryEntry (mem.stored (ascii "MemTotal") / MemoryMonitor.GB) 0
        (ascii " " ++ Double.toFixed 2 (.finite (memoryRatio mem))))) := by
    rw [Json.member_plain, hmemoryfind]
    rfl
  have hdiskmember : ∀ num row, l.devRows[num]? = some row →
      (j.plain fmt).member (Monitor.diskName num) =
        some (Json.plain fmt (Monitor.diskEntry row.disk)) := by
    intro num row hrow
    have hget : (l.devRows.map DfRow.disk)[num]? = some row.disk := by
      rw [List.getElem?_map, hrow, Option.map_some]
    have hlt : num < (l.devRows.map DfRow.disk).length := (List.getElem?_eq_some_iff.mp hget).1
    rw [Json.member_plain, hdiskfind num hlt, Json.members_object, Monitor.find_diskPatch hget,
      Option.map_some]
  have hfigure : ∀ q, JsonTree.figure? (.string (ascii " " ++ Double.toFixed 2 (.finite q))) =
      some (Double.fixed 2 q).value := Json.figure?_toFixed (ascii " ") (by decide) 2
  have hviews := mapM_diskTexts
    (fun row hrow => hfinds.words row (DfListing.mem_of_mem_devRows hrow)) hdiskmember
  have hview : infoView data = some ⟨(Double.fixed 2 usage).value,
      decimal (mem.stored (ascii "MemTotal") / MemoryMonitor.GB).toNat, decimal 0,
      (Double.fixed 2 (memoryRatio mem)).value, l.devRows.map (textsOf fmt)⟩ := by
    simp only [infoView, Json.ofText_dump hfmt hdata, Option.bind_eq_bind, Option.bind_some,
      hcpumember, hmemorymember, member_cpuEntry, (member_memoryEntry fmt _ _ _).1,
      (member_memoryEntry fmt _ _ _).2.1, (member_memoryEntry fmt _ _ _).2.2, JsonTree.number?,
      Json.length_members_plain, hlength, Nat.add_sub_cancel, hviews, hmeasures.cpuUsage,
      CPUMonitor.getCpuUsage, hfigure]
    rfl
  refine ⟨_, hview, Double.abs_value_fixed_sub_le (by decide) _, ?_, rfl,
    Double.abs_value_fixed_sub_le (by decide) _, rfl⟩
  rw [MemoryMonitor.toNat_stored_div_GB]

/-! ### The two figures in the other replies -/

def pairView (first second : Bytes) (data : Bytes) : Option (JsonTree × JsonTree) := do
  let t ← JsonTree.ofText data
  let pair ← t.member (ascii "data")
  let x ← pair.member first
  let y ← pair.member second
  return (x, y)

theorem pairView_dump {fmt : Json.FloatFormat} (hfmt : fmt.Numeric) {first second : Bytes}
    (hne : first ≠ second) {x y : Double} {data : Bytes}
    (hdata : (Json.object [(ascii "data",
      .object [(first, .numberFloat x), (second, .numberFloat y)])]).dump fmt = some data) :
    pairView first second data = some (Json.plainFloat fmt x, Json.plainFloat fmt y) := by
  have hpair : ∀ ms, (Json.plain fmt (.object [(ascii "data", .object ms)])).member (ascii "data") =
      some (.object (Json.plainMembers fmt ms)) := by
    intro ms
    rw [Json.member_plain]
    rfl
  rw [pairView, Json.ofText_dump hfmt hdata, Option.bind_eq_bind, Option.bind_some, hpair]
  simp [JsonTree.member, Json.find_plainMembers, find, hne, Json.plain]

theorem pairView_overview {fmt : Json.FloatFormat} (hfmt : fmt.Numeric) {r : Readings}
    {l : DfListing} {cpuinfo : Bytes} (hfinds : Finds r l cpuinfo) {j : Json}
    (hj : Monitor.diskInfoOverview r = some j) {data : Bytes} (hdata : j.dump fmt = some data) :
    pairView (ascii "lastCount") (ascii "useCount") data =
      some (.number (fmt.text (inTB (·.blocks) l)), .number (fmt.text (inTB (·.used) l))) := by
  have hdf : ∀ i, diskInfoByDf (r.df i) = some (l.devRows.map DfRow.disk) := getDisksByDf_eq hfinds
  simp only [Monitor.diskInfoOverview, DiskMonitor.diskTotalByDf, DiskMonitor.diskUsedByDf, hdf,
    Option.map_some, total_devRows, used_devRows, Option.bind_eq_bind, Option.bind_some,
    Monitor.overviewJson_eq, Option.some.injEq] at hj
  subst hj
  exact pairView_dump hfmt (by decide) hdata

theorem pairView_disksIO {fmt : Json.FloatFormat} (hfmt : fmt.Numeric) {r : Readings} {j : Json}
    (hj : Monitor.disksIO r = some j) {data : Bytes} (hdata : j.dump fmt = some data) :
    pairView (ascii "readIo") (ascii "writeIo") data =
      some (Json.plainFloat fmt r.diskIO.1, Json.plainFloat fmt r.diskIO.2) := by
  rw [Monitor.disksIO_eq, Option.some.injEq] at hj
  subst hj
  exact pairView_dump hfmt (by decide) hdata

/-! ### Whole runs -/

theorem documents_getElem? {commands : List Command} {d d' : Desk} {js : List Json}
    (h : documents commands d = some (js, d')) {k : ℕ} {c : Command} (hc : commands[k]? = some c) :
    ∃ j m m', js[k]? = some j ∧ document c m (d.readings k) = some (j, m') := by
  induction commands generalizing d js k with
  | nil => cases hc
  | cons c' commands ih =>
    simp only [documents, Option.bind_eq_bind, Option.bind_eq_some_iff, Option.pure_def,
      Option.some.injEq, Prod.mk.injEq] at h
    obtain ⟨⟨j, m⟩, hj, ⟨rest, e⟩, hrest, rfl, rfl⟩ := h
    cases k with
    | zero =>
      cases hc
      exact ⟨j, d.monitor, m, rfl, hj⟩
    | succ k =>
      obtain ⟨i, n, n', hi, hdocument⟩ := ih hrest (List.getElem?_cons_succ ▸ hc)
      exact ⟨i, n, n', hi, hdocument⟩

variable {κ : Type*} {fmt : Json.FloatFormat} {spec : κ → ClientSpec}

theorem map_dispatch_known (spec : κ → ClientSpec) (served : List (κ × Bytes)) :
    (known spec served).map (fun p => dispatch (spec p.1).text) =
      (served.filterMap fun p => dispatch (spec p.1).text).map some := by
  induction served with
  | nil => rfl
  | cons p served ih =>
    cases hc : dispatch (spec p.1).text with
    | none => simpa [known, hc] using ih
    | some c => simpa [known, hc] using ih

/-- The answer at place `k` is what the monitor makes of the readings of that request. -/
theorem exists_document_known {served : List (κ × Bytes)} {d d' : Desk} {js : List Json}
    (hjs : documents (served.filterMap fun p => dispatch (spec p.1).text) d = some (js, d'))
    (hdumps : js.map (Json.dump fmt) = (known spec served).map fun p => some p.2) {k : ℕ}
    {p : κ × Bytes} (hp : (known spec served)[k]? = some p) {c : Command}
    (hc : (spec p.1).text = c.text) :
    ∃ j m m', document c m (d.readings k) = some (j, m') ∧ j.dump fmt = some p.2 := by
  have hcommand : (served.filterMap fun p => dispatch (spec p.1).text)[k]? = some c := by
    have hmap := congrArg (·[k]?) (map_dispatch_known spec served)
    simp only [List.getElem?_map, hp, Option.map_some, dispatch_eq_some_iff.mpr hc] at hmap
    obtain ⟨c', hc', heq⟩ := Option.map_eq_some_iff.mp hmap.symm
    rw [hc', Option.some.inj heq]
  obtain ⟨j, m, m', hj, hdocument⟩ := documents_getElem? hjs hcommand
  have hdump := congrArg (·[k]?) hdumps
  simp only [List.getElem?_map, hp, hj, Option.map_some, Option.some.injEq] at hdump
  exact ⟨j, m, m', hdocument, hdump⟩

/-- What the text of a reply says to the command, in terms of what its request has found. -/
def Contents (fmt : Json.FloatFormat) (r : Readings) (l : DfListing) (usage : ℚ) (mem : Meminfo)
    (data : Bytes) : Command → Prop
  | .requestBaseInfo =>
    if l.devRows = [] then data = ascii "null"
    else ∃ v, infoView data = some v ∧ v.Shows fmt usage mem l
  | .disksOverview =>
    pairView (ascii "lastCount") (ascii "useCount") data =
      some (.number (fmt.text (inTB (·.blocks) l)), .number (fmt.text (inTB (·.used) l)))
  | .disksInfo =>
    ∃ views, disksView data = some (views, fmt.text (inTB (·.blocks) l)) ∧ Agrees l views
  | Command.diskIO =>
    pairView (ascii "readIo") (ascii "writeIo") data =
      some (Json.plainFloat fmt r.diskIO.1, Json.plainFloat fmt r.diskIO.2)

theorem contents_of_document (hfmt : fmt.Numeric) {m m' : Monitor} {r : Readings} {l : DfListing}
    {cpuinfo : Bytes} {usage : ℚ} {mem : Meminfo} (hfinds : Finds r l cpuinfo)
    (hmeasures : Measures r usage mem) {c : Command} {j : Json}
    (hj : document c m r = some (j, m')) {data : Bytes} (hdata : j.dump fmt = some data) :
    Contents fmt r l usage mem data c := by
  cases c with
  | requestBaseInfo =>
    rw [Contents]
    split_ifs with hnil
    · obtain ⟨cpu, hcpu, -⟩ := Monitor.getInfoByJson_cases hj
      have hdisks := getDisksByDf_eq hfinds 0
      rw [hnil] at hdisks
      rw [document, Monitor.getInfoByJson_nil hcpu (getMemory_text hmeasures) hdisks] at hj
      cases hj
      exact (Option.some.inj hdata).symm
    · exact infoView_dump hfmt hfinds hmeasures hnil hj hdata
  | disksOverview =>
    obtain ⟨i, hi, heq⟩ := Option.map_eq_some_iff.mp hj
    cases heq
    exact pairView_overview hfmt hfinds hi hdata
  | disksInfo =>
    obtain ⟨i, hi, heq⟩ := Option.map_eq_some_iff.mp hj
    cases heq
    exact ⟨_, disksView_dump hfmt hfinds hi hdata, agrees_viewOf l⟩
  | diskIO =>
    rw [document] at hj
    obtain ⟨i, hi, heq⟩ := Option.map_eq_some_iff.mp hj
    cases heq
    exact pairView_disksIO hfmt hi hdata

/-- Each answer to a known request tells what that request has found. -/
theorem contents_of_answers {served : List (κ × Bytes)} {desk : Desk}
    {listing : ℕ → DfListing} {cpuinfo : ℕ → Bytes} {usage : ℕ → ℚ} {mem : ℕ → Meminfo}
    (hfmt : fmt.Numeric) (hfinds : ∀ k, Finds (desk.readings k) (listing k) (cpuinfo k))
    (hmeasures : ∀ k, Measures (desk.readings k) (usage k) (mem k)) {d : Desk}
    (h : answers fmt (served.map fun p => (spec p.1).text) desk = some (served.map (·.2), d))
    {k : ℕ} {p : κ × Bytes} {c : Command} (hp : (known spec served)[k]? = some p)
    (htext : (spec p.1).text = c.text) :
    Contents fmt (desk.readings k) (listing k) (usage k) (mem k) p.2 c := by
  obtain ⟨js, hjs, hdumps⟩ := exists_documents h
  obtain ⟨j, m, m', hdocument, hdump⟩ := exists_document_known hjs hdumps hp htext
  exact contents_of_document hfmt (hfinds k) (hmeasures k) hdocument hdump

/-- A second disk comes between the first request and the others. -/
def growingListing (k : ℕ) : DfListing :=
  sampleListing (if k = 0 then [mydisk] else [mydisk, other])

def growingDesk : Desk :=
  ⟨Monitor.create, fun k =>
    { Monitor.sampleReadings (growingListing k) with
      cpuinfo := fun _ => .ofText [], meminfo := fun _ => .ofText plainDoc.text }⟩

def growingSpec : ℕ → ClientSpec
  | 0 => requestDisksInfoFromRaid
  | 1 => requestDiskOverviewFromRaid
  | 2 => requestDiskIoFromRaid
  | _ => ⟨.noBlockSocket, ascii "RequestBaseInfo"⟩

/-- The clients are served one after the other, and the last one has its first answer on its way. -/
def growingEvents : List (NetEvent ℕ) :=
  ([0, 1, 2].flatMap fun k =>
    [.send k, .arrive 0, .serverRound, .serverRound, .deliver 0, .recv k]) ++
    [.send 3, .arrive 0, .serverRound, .serverRound]

end Server

end ComputerMonitor
