import ComputerMonitor.MemoryMonitor.Meminfo

/-! The figures reported from `/proc/meminfo`: the usage ratio, and the memory there is and the
memory that is available in GB. -/

namespace ComputerMonitor

open Bytes Stdio

namespace Meminfo

theorem stored_lt (d : Meminfo) (name : Bytes) : min (d.valueOf name) (2 ^ 64 - 1) < 2 ^ 64 := by
  omega

theorem toNat_stored (d : Meminfo) (name : Bytes) :
    (d.stored name).toNat = min (d.valueOf name) (2 ^ 64 - 1) := by
  rw [stored, UInt64.toNat_ofNat', Nat.mod_eq_of_lt (d.stored_lt name)]

/-! ### The usage ratio -/

/-- The values that are taken from the total are 64-bit numbers. -/
def Fits (d : Meminfo) : Prop :=
  ∀ name ∈ [ascii "MemFree", ascii "Buffers", ascii "Cached", ascii "SReclaimable", ascii "Shmem"],
    d.valueOf name < 2 ^ 64

instance (d : Meminfo) : Decidable d.Fits := inferInstanceAs (Decidable (∀ name ∈ _, _))

/-- What is taken from the total, in integers. -/
def reclaimable (d : Meminfo) : ℤ :=
  d.valueOf (ascii "MemFree") + d.valueOf (ascii "Buffers") + d.valueOf (ascii "Cached") +
    d.valueOf (ascii "SReclaimable") - d.valueOf (ascii "Shmem")

theorem toNat_sub_le_iff (t x : UInt64) : (t - x).toNat ≤ t.toNat ↔ x.toNat ≤ t.toNat := by
  have ht := t.toNat_lt
  have hx := x.toNat_lt
  rw [UInt64.toNat_sub]
  omega

theorem toNat_inner {d : Meminfo} (h : d.Fits) :
    ((d.packet.memFree + d.packet.buffers + d.packet.cached + d.packet.sReclaimable -
      d.packet.shmem).toNat : ℤ) = d.reclaimable % 2 ^ 64 := by
  simp only [Fits, List.forall_mem_cons] at h
  obtain ⟨hfree, hbuffers, hcached, hreclaim, hshmem, -⟩ := h
  simp only [packet, UInt64.toNat_sub, UInt64.toNat_add, toNat_stored, reclaimable]
  generalize d.valueOf (ascii "MemFree") = f at *
  generalize d.valueOf (ascii "Buffers") = b at *
  generalize d.valueOf (ascii "Cached") = c at *
  generalize d.valueOf (ascii "SReclaimable") = r at *
  generalize d.valueOf (ascii "Shmem") = s at *
  omega

end Meminfo

namespace MemoryPrivate

/-- The ratio that `GetMemoryUsage` formats. -/
def ratio (memInfo : MemoryPacket) : Double :=
  ((used memInfo).toNat : Double) / (memInfo.memTotal.toNat : Double)

theorem getMemoryUsage_eq (fp : Stream) : getMemoryUsage fp =
    (getMemoryInfo fp).map fun memInfo => ascii " " ++ Double.toFixed 2 (ratio memInfo) := rfl

/-- No more memory is in use than there is. -/
structure Within (memInfo : MemoryPacket) : Prop where
  used : used memInfo ≤ memInfo.memTotal
  nonneg : Double.Le 0 (ratio memInfo)
  le_one : Double.Le (ratio memInfo) 1

theorem within_iff {memInfo : MemoryPacket} (htotal : 0 < memInfo.memTotal.toNat) :
    Within memInfo ↔ (used memInfo).toNat ≤ memInfo.memTotal.toNat := by
  constructor
  · intro h
    exact UInt64.le_iff_toNat_le.mp h.used
  · intro h
    have hpos : (0 : ℚ) < memInfo.memTotal.toNat := Nat.cast_pos.mpr htotal
    have hratio : ratio memInfo = .finite ((used memInfo).toNat / memInfo.memTotal.toNat) := by
      rw [ratio, Double.natCast_def, Double.natCast_def, Double.finite_div _ hpos.ne']
    apply Within.mk (UInt64.le_iff_toNat_le.mpr h)
    · exact ⟨0, _, rfl, hratio, by positivity⟩
    · refine ⟨_, 1, hratio, rfl, ?_⟩
      rw [div_le_one hpos]
      exact Nat.cast_le.mpr h

/-- The usage ratio is at most 1 exactly if what is taken from the total does not wrap past it. -/
theorem within_getMemoryInfo_iff {d : Meminfo} (hfits : d.Fits)
    (htotal : 0 < d.valueOf (ascii "MemTotal")) :
    (∃ memInfo, getMemoryInfo (.ofText d.text) = some memInfo ∧
      getMemoryUsage (.ofText d.text) = some (ascii " " ++ Double.toFixed 2 (ratio memInfo)) ∧
      Within memInfo) ↔
      d.reclaimable % 2 ^ 64 ≤ min (d.valueOf (ascii "MemTotal")) (2 ^ 64 - 1) := by
  have hinfo := d.getMemoryInfo_text
  have hpos : 0 < d.packet.memTotal.toNat := by
    change 0 < (d.stored (ascii "MemTotal")).toNat
    rw [d.toNat_stored]
    omega
  have hwithin : Within d.packet ↔
      d.reclaimable % 2 ^ 64 ≤ min (d.valueOf (ascii "MemTotal")) (2 ^ 64 - 1) := by
    rw [within_iff hpos, used, Meminfo.toNat_sub_le_iff, ← Nat.cast_le (α := ℤ),
      Meminfo.toNat_inner hfits]
    change _ ≤ ((d.stored (ascii "MemTotal")).toNat : ℤ) ↔ _
    rw [d.toNat_stored, Nat.cast_min]
  rw [← hwithin]
  constructor
  · rintro ⟨memInfo, hmem, -, h⟩
    rw [hinfo] at hmem
    cases hmem
    exact h
  · intro h
    exact ⟨d.packet, hinfo, by rw [getMemoryUsage_eq, hinfo, Option.map_some], h⟩

end MemoryPrivate

/-- An entry with a single blank behind its colon. -/
def memEntry (key : Bytes) (value : ℕ) (h : 0x3a ∉ key ∧ newline ∉ key ∧
    (key ++ 0x3a :: ([0x20] ++ (decimal value ++ ascii " kB"))).length < 254) : MemEntry :=
  ⟨key, [0x20], value, h.1, h.2.1, Gap.space.blank, Gap.space.ne, Gap.space.inLine, h.2.2⟩

def plainDoc : Meminfo where
  lines := [.inl (memEntry (ascii "MemFree") 3 (by decide)),
    .inr ⟨ascii "HugePages_Total:       0", by decide, by decide, by decide⟩,
    .inl (memEntry (ascii "MemTotal") 10 (by decide))]
  nodup := by decide

theorem within_getMemoryInfo_iff_plain :
    ∃ memInfo, MemoryPrivate.getMemoryInfo (.ofText plainDoc.text) = some memInfo ∧
      MemoryPrivate.getMemoryUsage (.ofText plainDoc.text) =
        some (ascii " " ++ Double.toFixed 2 (MemoryPrivate.ratio memInfo)) ∧
      MemoryPrivate.Within memInfo :=
  (MemoryPrivate.within_getMemoryInfo_iff (d := plainDoc) (by decide) (by decide)).mpr (by decide)

/-- Nothing but shared memory: what is taken from the total wraps to the largest number. -/
def shmemOnlyDoc : Meminfo where
  lines := [.inl (memEntry (ascii "MemTotal") 1 (by decide)),
    .inl (memEntry (ascii "Shmem") 1 (by decide))]
  nodup := by decide

/-- Of 1 kB there are 2 kB in use. -/
theorem getMemoryInfo_not_within :
    ¬∀ d : Meminfo, d.Fits → 0 < d.valueOf (ascii "MemTotal") →
      ∃ memInfo, MemoryPrivate.getMemoryInfo (.ofText d.text) = some memInfo ∧
        MemoryPrivate.getMemoryUsage (.ofText d.text) =
          some (ascii " " ++ Double.toFixed 2 (MemoryPrivate.ratio memInfo)) ∧
        MemoryPrivate.Within memInfo := by
  intro h
  obtain ⟨memInfo, hinfo, -, hwithin⟩ := h shmemOnlyDoc (by decide) (by decide)
  rw [shmemOnlyDoc.getMemoryInfo_text, Option.some.injEq] at hinfo
  subst hinfo
  exact absurd hwithin.used (by decide)

/-! ### Memory in GB -/

namespace MemoryMonitor

theorem toNat_div_GB (x : UInt64) : (x / GB).toNat = x.toNat / 2 ^ 20 := by
  rw [UInt64.toNat_div]
  rfl

/-- The figures of `GetMemory` are those of the document. -/
structure Figures (d : Meminfo) (total unused : UInt64) : Prop where
  total_eq : total.toNat = d.valueOf (ascii "MemTotal") / 2 ^ 20
  unused_eq : unused.toNat = d.valueOf (ascii "MemAvailable") / 2 ^ 20
  unused_ne : 2 ^ 20 ≤ d.valueOf (ascii "MemAvailable") → unused ≠ 0
  unused_le : d.valueOf (ascii "MemAvailable") ≤ d.valueOf (ascii "MemTotal") → unused ≤ total

theorem getMemoryTotal_text (d : Meminfo) :
    getMemoryTotal (.ofText d.text) = some (d.stored (ascii "MemTotal") / GB) := by
  rw [getMemoryTotal, MemoryPrivate.getMemoryTotal, d.getMemoryInfo_text]
  rfl

/-- No branch of the loop fills the field that `GetMemoryUnused` returns. -/
theorem getMemoryUnused_text (d : Meminfo) : getMemoryUnused (.ofText d.text) = some 0 := by
  rw [getMemoryUnused, MemoryPrivate.getMemoryUnused, d.getMemoryInfo_text, Option.map_some,
    Option.map_some, Option.some.injEq]
  apply UInt64.toNat_inj.mp
  rw [toNat_div_GB]
  exact Nat.zero_div _

theorem toNat_stored_div_GB (d : Meminfo) :
    (d.stored (ascii "MemTotal") / GB).toNat =
      min (d.valueOf (ascii "MemTotal")) (2 ^ 64 - 1) / 2 ^ 20 := by
  rw [toNat_div_GB, d.toNat_stored]

/-- The figures are right exactly for less than 1 GB of available memory, the total being a 64-bit
number. -/
theorem figures_iff (d : Meminfo) :
    (∃ total unused, getMemoryTotal (.ofText d.text) = some total ∧
      getMemoryUnused (.ofText d.text) = some unused ∧ Figures d total unused) ↔
      d.valueOf (ascii "MemTotal") < 2 ^ 64 ∧ d.valueOf (ascii "MemAvailable") < 2 ^ 20 := by
  have hstored := toNat_stored_div_GB d
  constructor
  · rintro ⟨total, unused, ht, hu, h⟩
    have htotal := h.total_eq
    have hunused := h.unused_eq
    rw [getMemoryTotal_text, Option.some.injEq] at ht
    rw [getMemoryUnused_text, Option.some.injEq] at hu
    rw [← ht, hstored] at htotal
    rw [← hu, UInt64.toNat_zero] at hunused
    omega
  · rintro ⟨hfits, hsmall⟩
    refine ⟨_, _, getMemoryTotal_text d, getMemoryUnused_text d, ?_⟩
    constructor
    · rw [hstored]
      omega
    · rw [UInt64.toNat_zero]
      omega
    · omega
    · intro _
      exact UInt64.zero_le

/-- As much memory is available as there is, but none is reported. -/
def idleDoc : Meminfo where
  lines := [.inl (memEntry (ascii "MemTotal") (2 ^ 20) (by decide)),
    .inl (memEntry (ascii "MemAvailable") (2 ^ 20) (by decide))]
  nodup := by decide

theorem not_figures_idle :
    ¬∀ d : Meminfo, (d.entry? (ascii "MemTotal")).isSome →
      (d.entry? (ascii "MemAvailable")).isSome →
        ∃ total unused, getMemoryTotal (.ofText d.text) = some total ∧
          getMemoryUnused (.ofText d.text) = some unused ∧ Figures d total unused := by
  intro h
  obtain ⟨total, unused, -, hu, hfigures⟩ := h idleDoc (by decide) (by decide)
  rw [getMemoryUnused_text, Option.some.injEq] at hu
  exact hfigures.unused_ne (by decide) hu.symm

end MemoryMonitor

end ComputerMonitor
