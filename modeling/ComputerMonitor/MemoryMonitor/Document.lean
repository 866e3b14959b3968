import ComputerMonitor.MemoryMonitor.Figures

/-! The used memory that is computed from a `/proc/meminfo` document. -/

namespace ComputerMonitor

open Bytes Stdio

/-- A document whose values are 64-bit numbers. -/
structure MemDoc extends Meminfo where
  value_lt : ∀ e ∈ toMeminfo.entries, e.value < 2 ^ 64

namespace Meminfo

theorem find?_key_eq_some {es : List MemEntry} (hnd : (es.map (·.key)).Nodup) {name : Bytes}
    {e : MemEntry} : es.find? (·.key == name) = some e ↔ e ∈ es ∧ e.key = name := by
  constructor
  · intro h
    exact ⟨List.mem_of_find?_eq_some h, by simpa using List.find?_some h⟩
  · rintro ⟨hmem, rfl⟩
    induction es with
    | nil => cases hmem
    | cons k es ih =>
      rw [List.map_cons, List.nodup_cons] at hnd
      rcases List.mem_cons.mp hmem with rfl | hmem
      · simp
      · have hne : (k.key == e.key) = false := by
          rw [beq_eq_false_iff_ne]
          exact fun h => hnd.1 (List.mem_map.mpr ⟨e, hmem, h.symm⟩)
        rw [List.find?_cons, hne]
        exact ih hnd.2 hmem

theorem entry?_eq_of_perm {d e : Meminfo} (h : d.lines.Perm e.lines) (name : Bytes) :
    d.entry? name = e.entry? name := by
  have hentries : d.entries.Perm e.entries := h.filterMap Sum.getLeft?
  have hnodup : ∀ m : Meminfo, (m.entries.map (·.key)).Nodup := fun m => m.nodup
  ext entry
  rw [Meminfo.entry?, Meminfo.entry?, find?_key_eq_some (hnodup d), find?_key_eq_some (hnodup e),
    hentries.mem_iff]

/-- The order of the lines is irrelevant. -/
theorem packet_eq_of_perm {d e : Meminfo} (h : d.lines.Perm e.lines) : d.packet = e.packet := by
  simp only [packet, stored, valueOf, entry?_eq_of_perm h]

/-- The memory in use, from the figures of the document and in integers. -/
def usedExact (d : Meminfo) : ℤ := d.valueOf (ascii "MemTotal") - d.reclaimable

end Meminfo

namespace MemDoc

theorem valueOf_lt (d : MemDoc) (name : Bytes) : d.valueOf name < 2 ^ 64 := by
  rw [Meminfo.valueOf]
  cases he : d.entry? name with
  | none => decide
  | some e => exact d.value_lt e (List.mem_of_find?_eq_some he)

/-- Where the exact figure is representable, no wrap on the way to it is left in the result. -/
theorem toNat_used_packet (d : MemDoc) (h0 : 0 ≤ d.usedExact) (h1 : d.usedExact < 2 ^ 64) :
    ((MemoryPrivate.used d.packet).toNat : ℤ) = d.usedExact := by
  have hinner := Meminfo.toNat_inner (d := d.toMeminfo) fun name _ => d.valueOf_lt name
  have htotal : d.packet.memTotal.toNat = d.valueOf (ascii "MemTotal") := by
    have hlt := d.valueOf_lt (ascii "MemTotal")
    exact (d.toNat_stored _).trans (min_eq_left (by omega))
  rw [Meminfo.usedExact] at h0 h1 ⊢
  rw [MemoryPrivate.used, UInt64.toNat_sub, htotal]
  omega

end MemDoc

namespace MemoryPrivate

/-- `GetMemoryUsage` computes the memory in use exactly whenever it is a 64-bit number, and does not
depend on the order of the lines. -/
theorem used_getMemoryInfo_eq (d : MemDoc) :
    (0 ≤ d.usedExact → d.usedExact < 2 ^ 64 →
      ∃ memInfo, getMemoryInfo (.ofText d.text) = some memInfo ∧
        getMemoryUsage (.ofText d.text) = some (ascii " " ++ Double.toFixed 2
          (((used memInfo).toNat : Double) / (memInfo.memTotal.toNat : Double))) ∧
        ((used memInfo).toNat : ℤ) = d.usedExact) ∧
    ∀ e : Meminfo, e.lines.Perm d.lines →
      getMemoryInfo (.ofText e.text) = getMemoryInfo (.ofText d.text) ∧
        getMemoryUsage (.ofText e.text) = getMemoryUsage (.ofText d.text) := by
  constructor
  · intro h0 h1
    have hinfo := d.getMemoryInfo_text
    exact ⟨d.packet, hinfo, by rw [getMemoryUsage, hinfo, Option.map_some],
      d.toNat_used_packet h0 h1⟩
  · intro e he
    have hinfo : getMemoryInfo (.ofText e.text) = getMemoryInfo (.ofText d.text) := by
      rw [e.getMemoryInfo_text, d.getMemoryInfo_text, Meminfo.packet_eq_of_perm he]
    exact ⟨hinfo, by rw [getMemoryUsage, hinfo, getMemoryUsage]⟩

/-- A document whose inner difference is negative, behind a key that extends a known one. -/
def shmemDoc : MemDoc where
  lines := [.inl (memEntry (ascii "ShmemHugePages") 7 (by decide)),
    .inl (memEntry (ascii "Shmem") 5 (by decide)), .inl (memEntry (ascii "MemFree") 1 (by decide)),
    .inl (memEntry (ascii "MemTotal") 20 (by decide))]
  nodup := by decide
  value_lt := by decide

def shmemDocReversed : Meminfo where
  lines := shmemDoc.lines.reverse
  nodup := by decide

theorem used_getMemoryInfo_eq_shmem :
    shmemDoc.usedExact = 24 ∧
    (∃ memInfo, getMemoryInfo (.ofText shmemDoc.text) = some memInfo ∧
      getMemoryUsage (.ofText shmemDoc.text) = some (ascii " " ++ Double.toFixed 2
        (((used memInfo).toNat : Double) / (memInfo.memTotal.toNat : Double))) ∧
      ((used memInfo).toNat : ℤ) = shmemDoc.usedExact) ∧
    getMemoryUsage (.ofText shmemDocReversed.text) = getMemoryUsage (.ofText shmemDoc.text) :=
  ⟨by decide, (used_getMemoryInfo_eq shmemDoc).1 (by decide) (by decide),
    ((used_getMemoryInfo_eq shmemDoc).2 shmemDocReversed (List.reverse_perm _)).2⟩

end MemoryPrivate

end ComputerMonitor
