import ComputerMonitor.Monitor.Info

/-! The documents about the disks: two counts in the one of `DiskInfoOverview`, an array entry for
each disk in the one of `DisksInfo`, a member for each in the one of `GetDisk`. -/

namespace ComputerMonitor

open Bytes Stdio Assoc

namespace Monitor

open Json

theorem overviewJson_eq (lastCount useCount : Double) : overviewJson lastCount useCount =
    some (.object [(ascii "data", .object [(ascii "lastCount", .numberFloat lastCount),
      (ascii "useCount", .numberFloat useCount)])]) := rfl

/-! ### `DisksInfo` -/

/-- The entry for a disk, its members in the order of their keys. -/
def entry (it : DFStructInfo) : Json :=
  .object [(ascii "diskCapacity", .string (Double.toFixed 6 (it.blocks / TB))),
    (ascii "diskPosition", .string it.mounted.str),
    (ascii "diskSpace", .string (Double.toFixed 6 (it.available / TB))),
    (ascii "diskState", .numberInteger 0), (ascii "enable", .boolean true),
    (ascii "testProgress", .numberInteger 1), (ascii "testResult", .numberInteger 1)]

theorem listEntry_eq (it : DFStructInfo) : listEntry it = some (entry it) := rfl

theorem addEntries_object (entries : List Json) (disks : List DFStructInfo) :
    addEntries (.object [(ascii "list", .array entries)]) disks =
      some (.object [(ascii "list", .array (entries ++ disks.map entry))]) := by
  induction disks generalizing entries with
  | nil => simp [addEntries]
  | cons it disks ih =>
    have hpush : (object [(ascii "list", .array entries)]).modify (ascii "list")
          (pushBack (entry it)) =
        some (.object [(ascii "list", .array (entries ++ [entry it]))]) := rfl
    simp [addEntries, listEntry_eq, hpush, ih]

/-- The loop leaves null without disks, and otherwise an object whose only member is the array. -/
theorem addEntries_null (disks : List DFStructInfo) :
    addEntries .null disks =
      some (if disks = [] then .null else .object [(ascii "list", .array (disks.map entry))]) := by
  cases disks with
  | nil => rfl
  | cons it disks =>
    have hpush : null.modify (ascii "list") (pushBack (entry it)) =
        some (.object [(ascii "list", .array [entry it])]) := rfl
    simp [addEntries, listEntry_eq, hpush, addEntries_object]

/-- The loop's result is no pair, so the braces around it and the total make an array. -/
theorem disksInfoJson_eq (disks : List DFStructInfo) (total : Double) :
    disksInfoJson disks total = some (.object [(ascii "data", .array
      [if disks = [] then .null else .object [(ascii "list", .array (disks.map entry))],
        .array [.string (ascii "total"), .numberFloat total]])]) := by
  rw [disksInfoJson, addEntries_null]
  by_cases h : disks = []
  · simp only [h, if_true]
    rfl
  · simp only [h, if_false]
    rfl

/-- `data` is an object with the entries of all disks in their order, and the total. -/
structure Lists (j : Json) (disks : List DFStructInfo) : Prop where
  data : ∃ data, find (ascii "data") j.members = some (.object data) ∧
    (∃ entries, find (ascii "list") data = some (.array entries) ∧
      List.Forall₂ (fun e it =>
        find (ascii "diskPosition") e.members = some (.string it.mounted.str) ∧
        find (ascii "diskCapacity") e.members =
          some (.string (Double.toFixed 6 (it.blocks / TB))) ∧
        find (ascii "diskSpace") e.members =
          some (.string (Double.toFixed 6 (it.available / TB)))) entries disks) ∧
    ∃ x, find (ascii "total") data = some (.numberFloat x)

theorem not_lists (disks disks' : List DFStructInfo) (total : Double) (j : Json)
    (h : disksInfoJson disks' total = some j) : ¬Lists j disks := by
  rintro ⟨data, hdata, -⟩
  rw [disksInfoJson_eq, Option.some.injEq] at h
  simp [← h, find] at hdata

theorem disksInfo_eq {r : Readings} {disks disks' : List DFStructInfo}
    (h : DiskMonitor.getDisksByDf (r.df 0) = some disks)
    (h' : DiskMonitor.getDisksByDf (r.df 1) = some disks') :
    disksInfo r = disksInfoJson disks (DiskMonitor.total disks') := by
  rw [DiskMonitor.getDisksByDf] at h'
  simp [disksInfo, h, DiskMonitor.diskTotalByDf, h']

/-- The document of `DisksInfo` never has an object under `data`, whatever the disks are. -/
theorem disksInfo_not_lists {r : Readings} {disks disks' : List DFStructInfo}
    (h : DiskMonitor.getDisksByDf (r.df 0) = some disks)
    (h' : DiskMonitor.getDisksByDf (r.df 1) = some disks') :
    ∃ j, disksInfo r = some j ∧ ¬Lists j disks :=
  ⟨_, (disksInfo_eq h h').trans (disksInfoJson_eq disks _),
    not_lists disks disks _ _ (disksInfoJson_eq disks _)⟩

theorem disksInfo_not_lists_mydisk :
    ∃ j, disksInfo (sampleReadings (DiskPrivate.sampleListing [DiskPrivate.mydisk])) = some j ∧
      ¬Lists j [DiskPrivate.mydisk.disk] :=
  disksInfo_not_lists (DfListing.diskInfoByDf_text _ (by decide))
    (DfListing.diskInfoByDf_text _ (by decide))

/-- Without any disk there is not even a list. -/
theorem disksInfo_not_lists_nil :
    ¬∀ (r : Readings) (disks disks' : List DFStructInfo),
      DiskMonitor.getDisksByDf (r.df 0) = some disks →
        DiskMonitor.getDisksByDf (r.df 1) = some disks' →
          ∃ j, disksInfo r = some j ∧ Lists j disks := by
  intro h
  have hdisks : DiskMonitor.getDisksByDf ((sampleReadings (DiskPrivate.sampleListing [])).df 0) =
      some [] :=
    DfListing.diskInfoByDf_text _ (by decide)
  obtain ⟨j, hj, hlists⟩ := h (sampleReadings (DiskPrivate.sampleListing [])) [] [] hdisks hdisks
  rw [disksInfo_eq hdisks hdisks] at hj
  exact not_lists [] [] _ j hj hlists

/-! ### `GetDisk` -/

/-- What the document tells of a disk: its mount point, and its counts in kB. -/
structure DiskFigures where
  name : Bytes
  total : Double
  unused : Double
  used : Double

def DiskFigures.ofDisk (it : DFStructInfo) : DiskFigures :=
  ⟨it.mounted.str, it.blocks, it.available, it.used⟩

def string? : Json → Option Bytes
  | .string s => some s
  | _ => none

def numberFloat? : Json → Option Double
  | .numberFloat x => some x
  | _ => none

/-- The figures of one member, scaled back from GB. -/
def readEntry (e : Json) : Option DiskFigures := do
  let name ← (find (ascii "name") e.members).bind string?
  let total ← (find (ascii "total") e.members).bind numberFloat?
  let unused ← (find (ascii "unused") e.members).bind numberFloat?
  let used ← (find (ascii "used") e.members).bind numberFloat?
  return ⟨name, total.scale (2 ^ 20), unused.scale (2 ^ 20), used.scale (2 ^ 20)⟩

/-- The disks of a document, by their numbers. -/
def readDisks (j : Json) : List DiskFigures :=
  (List.range j.members.length).filterMap fun num => (find (diskName num) j.members).bind readEntry

/-- A member of the document holds a disk. -/
structure HoldsDisk (e : Json) (it : DFStructInfo) : Prop where
  name : find (ascii "name") e.members = some (.string it.mounted.str)
  total : find (ascii "total") e.members = some (.numberFloat (it.blocks / .finite (2 ^ 20)))
  unused : find (ascii "unused") e.members = some (.numberFloat (it.available / .finite (2 ^ 20)))
  used : find (ascii "used") e.members = some (.numberFloat (it.used / .finite (2 ^ 20)))

theorem GB_eq : GB = .finite (2 ^ 20) := by
  rw [GB]
  norm_num

theorem holdsDisk_diskEntry (it : DFStructInfo) : HoldsDisk (diskEntry it) it := by
  rw [diskEntry_eq, GB_eq]
  exact ⟨rfl, rfl, rfl, rfl⟩

theorem readEntry_of_holdsDisk {e : Json} {it : DFStructInfo} (h : HoldsDisk e it) :
    readEntry e = some (.ofDisk it) := by
  have hscale := Double.scale_div (c := 2 ^ 20) (by norm_num)
  simp [readEntry, h.name, h.total, h.unused, h.used, string?, numberFloat?, hscale,
    DiskFigures.ofDisk]

theorem find_diskMembers {num i : ℕ} {disks : List DFStructInfo} {it : DFStructInfo}
    (h : disks[i]? = some it) : (diskName (num + i), diskEntry it) ∈ diskMembers num disks := by
  induction disks generalizing num i with
  | nil => simp at h
  | cons d disks ih =>
    cases i with
    | zero =>
      rw [List.getElem?_cons_zero, Option.some.injEq] at h
      simp [diskMembers, h]
    | succ i =>
      have hmem : (diskName (num + 1 + i), diskEntry it) ∈ diskMembers (num + 1) disks :=
        ih (by simpa using h)
      rw [Nat.add_right_comm, Nat.add_assoc] at hmem
      exact List.mem_cons_of_mem _ hmem

/-- The member with a disk's number is that disk's. -/
theorem find_diskPatch {disks : List DFStructInfo} {i : ℕ} {it : DFStructInfo}
    (h : disks[i]? = some it) : find (diskName i) (diskPatch disks) = some (diskEntry it) := by
  have hmem : (diskName (0 + i), diskEntry it) ∈ diskMembers 0 disks := find_diskMembers h
  rw [Nat.zero_add] at hmem
  exact find_insertAll_of_mem (nodup_keys_diskMembers 0 disks) hmem

theorem length_diskPatch (disks : List DFStructInfo) : (diskPatch disks).length = disks.length := by
  have hlen := (keys_diskPatch disks).length_eq
  simpa [keys] using hlen

theorem filterMap_getElem? {α : Type*} (xs : List α) :
    (List.range xs.length).filterMap (fun i => xs[i]?) = xs := by
  induction xs using List.reverseRecOn with
  | nil => rfl
  | append_singleton xs x ih =>
    have hfront : (List.range xs.length).filterMap (fun i => (xs ++ [x])[i]?) = xs := by
      refine (List.filterMap_congr fun i hi => ?_).trans ih
      exact List.getElem?_append_left (List.mem_range.mp hi)
    rw [List.length_append, List.length_singleton, List.range_succ, List.filterMap_append, hfront]
    simp

/-- Reading the members by their numbers gives the disks in the order of the listing. -/
theorem readDisks_diskPatch (disks : List DFStructInfo) :
    readDisks (.object (diskPatch disks)) = disks.map .ofDisk := by
  have hread : ∀ i ∈ List.range disks.length,
      (find (diskName i) (diskPatch disks)).bind readEntry =
        (disks.map DiskFigures.ofDisk)[i]? := by
    intro i hi
    have hlt : i < disks.length := List.mem_range.mp hi
    have hget : disks[i]? = some disks[i] := List.getElem?_eq_getElem hlt
    rw [find_diskPatch hget, Option.bind_some, readEntry_of_holdsDisk (holdsDisk_diskEntry _),
      List.getElem?_map, hget, Option.map_some]
  rw [readDisks, members_object, length_diskPatch, List.filterMap_congr hread]
  simpa using filterMap_getElem? (disks.map DiskFigures.ofDisk)

theorem sorted_diskPatch (disks : List DFStructInfo) :
    (keys (diskPatch disks)).Pairwise (· < ·) :=
  sorted_insertAll (fun _ _ _ => List.lt_trans)
    (fun _ _ hlt hne => by_contra fun h => hne (List.le_antisymm h hlt)) _ .nil

/-- `GetDisk` keeps every disk, under a key of its own, and although the keys are in the order of
their texts the listing can be read back in its own order. -/
theorem getDisk_readDisks {r : Readings} {disks : List DFStructInfo}
    (h : DiskMonitor.getDisksByDf (r.df 0) = some disks) (hne : disks ≠ []) :
    ∃ ms, getDisk r = some (.object ms) ∧ ms.length = disks.length ∧
      (keys ms).Perm ((List.range disks.length).map diskName) ∧ (keys ms).Nodup ∧
      (keys ms).Pairwise (· < ·) ∧
      (∀ i it, disks[i]? = some it → ∃ e, find (diskName i) ms = some e ∧ HoldsDisk e it) ∧
      readDisks (.object ms) = disks.map .ofDisk := by
  have hdisk : getDisk r = some (.object (diskPatch disks)) := by
    simp [getDisk, h, addDisks_null, hne, diskPatch]
  have hnodup : (keys (diskPatch disks)).Nodup :=
    (keys_diskPatch disks).nodup_iff.mpr (List.nodup_range.map diskName_injective)
  refine ⟨_, hdisk, length_diskPatch disks, keys_diskPatch disks, hnodup, sorted_diskPatch disks,
    fun i it hi => ⟨_, find_diskPatch hi, holdsDisk_diskEntry it⟩, readDisks_diskPatch disks⟩

theorem getDisk_readDisks_two :
    ∃ ms, getDisk (sampleReadings (DiskPrivate.sampleListing
        [DiskPrivate.mydisk, DiskPrivate.other])) = some (.object ms) ∧ ms.length = 2 ∧
      readDisks (.object ms) =
        [.ofDisk DiskPrivate.mydisk.disk, .ofDisk DiskPrivate.other.disk] := by
  have hdisks : DiskMonitor.getDisksByDf ((sampleReadings (DiskPrivate.sampleListing
      [DiskPrivate.mydisk, DiskPrivate.other])).df 0) =
        some [DiskPrivate.mydisk.disk, DiskPrivate.other.disk] :=
    DfListing.diskInfoByDf_text _ (by decide)
  obtain ⟨ms, hms, hlen, -, -, -, -, hread⟩ := getDisk_readDisks hdisks (by simp)
  exact ⟨ms, hms, hlen, hread⟩

end Monitor

end ComputerMonitor
