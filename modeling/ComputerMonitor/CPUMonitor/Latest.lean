import ComputerMonitor.CPUMonitor.Sampling
import ComputerMonitor.Support.Rendering

/-! Which sample a call of `GetCPUUSage` returns. -/

namespace ComputerMonitor

open Double Bytes Stdio

namespace CpuShared

/-- The value of the atomic after `k` stores as `GetCPUUSage` reports it: each store is computed
from two snapshots of its own. -/
def published (snapshots : ℕ → CPUInfo) : ℕ → Double
  | 0 => 0
  | k + 1 => CPUPrivate.calcCPUUsage (snapshots (2 * k)) (snapshots (2 * k + 1))

/-- The snapshots that the thread has taken for its next store. -/
def InHand (snapshots : ℕ → CPUInfo) (stores samples : ℕ) : CpuThread → Prop
  | .test => samples = 2 * stores
  | .oldCPU => samples = 2 * stores
  | .newCPU oldCPU => samples = 2 * stores + 1 ∧ oldCPU = snapshots (2 * stores)
  | .store oldCPU newCPU =>
    oldCPU = snapshots (2 * stores) ∧ newCPU = snapshots (2 * stores + 1) ∧
      samples = 2 * stores + 2
  | .ended => True

/-- The atomic holds the last store, and the calls so far have returned what it held as they
returned, one after the other. -/
structure Current (snapshots : ℕ → CPUInfo) (s : CpuShared) : Prop where
  sound : Sound s
  inHand : InHand snapshots s.stores s.samples s.thread
  stored : 0 < s.stores → s.cpuUsage = published snapshots s.stores
  le : ∀ p ∈ s.returned, p.1 ≤ s.stores
  sorted : (s.returned.map (·.1)).Pairwise (· ≤ ·)
  value : ∀ p ∈ s.returned, p.2 = published snapshots p.1

variable {snapshots : ℕ → CPUInfo} {s t : CpuShared}

theorem current_init : Current snapshots init := by
  refine ⟨sound_init, rfl, ?_, ?_, List.Pairwise.nil, ?_⟩
  · intro h
    cases h
  · intro p h
    cases h
  · intro p h
    cases h

theorem Current.runCPUThread (h : Current snapshots s) (hstep : s.runCPUThread snapshots = some t) :
    Current snapshots t := by
  have hsound := h.sound.runCPUThread hstep
  have hhand := h.inHand
  rw [CpuShared.runCPUThread] at hstep
  cases hthread : s.thread with
  | test =>
    rw [hthread] at hstep hhand
    cases hstep
    refine ⟨hsound, ?_, h.stored, h.le, h.sorted, h.value⟩
    cases s.running
    · trivial
    · exact hhand
  | oldCPU =>
    rw [hthread] at hstep hhand
    cases hstep
    have hsamples : s.samples = 2 * s.stores := hhand
    exact ⟨hsound, ⟨congrArg (· + 1) hsamples, congrArg snapshots hsamples⟩, h.stored, h.le,
      h.sorted, h.value⟩
  | newCPU oldCPU =>
    rw [hthread] at hstep hhand
    cases hstep
    obtain ⟨hsamples, hold⟩ := hhand
    exact ⟨hsound, ⟨hold, congrArg snapshots hsamples, congrArg (· + 1) hsamples⟩, h.stored, h.le,
      h.sorted, h.value⟩
  | store oldCPU newCPU =>
    rw [hthread] at hstep hhand
    cases hstep
    obtain ⟨rfl, rfl, hsamples⟩ := hhand
    exact ⟨hsound, hsamples, fun _ => rfl, fun p hp => Nat.le_succ_of_le (h.le p hp), h.sorted,
      h.value⟩
  | ended =>
    rw [hthread] at hstep
    cases hstep

theorem Current.giveBack (h : Current snapshots s) {x : Double} (hsound : Sound (s.giveBack x))
    (hx : x = published snapshots s.stores) : Current snapshots (s.giveBack x) := by
  refine ⟨hsound, h.inHand, h.stored, ?_, ?_, ?_⟩
  · intro p hp
    rcases List.mem_append.mp hp with hp | hp
    · exact h.le p hp
    · rw [List.mem_singleton.mp hp]
      exact le_refl s.stores
  · rw [CpuShared.giveBack, List.map_append, List.pairwise_append]
    refine ⟨h.sorted, List.pairwise_singleton _ _, ?_⟩
    intro k hk j hj
    obtain ⟨p, hp, rfl⟩ := List.mem_map.mp hk
    rw [List.map_singleton, List.mem_singleton] at hj
    rw [hj]
    exact h.le p hp
  · intro p hp
    rcases List.mem_append.mp hp with hp | hp
    · exact h.value p hp
    · rw [List.mem_singleton.mp hp]
      exact hx

/-- A call that finds the sentinel has come before the first store. -/
theorem Current.getCPUUSage (h : Current snapshots s) : Current snapshots s.getCPUUSage := by
  have hsound := h.sound.getCPUUSage
  rw [CpuShared.getCPUUSage] at hsound ⊢
  cases hcaller : s.caller with
  | idle =>
    simp only [hcaller] at hsound ⊢
    split at hsound
    · rename_i hlt
      rw [if_pos hlt]
      apply h.giveBack hsound
      have hnone : s.stores = 0 := by
        by_contra hne
        exact absurd hlt (by simp [(h.sound.stored (Nat.pos_of_ne_zero hne)).2])
      rw [hnone, published]
    · rename_i hlt
      rw [if_neg hlt]
      exact ⟨hsound, h.inHand, h.stored, h.le, h.sorted, h.value⟩
  | checked =>
    simp only [hcaller] at hsound ⊢
    exact h.giveBack hsound (h.stored (h.sound.checked hcaller))

theorem Current.step (h : Current snapshots s) (a : CpuAction)
    (hstep : s.step snapshots a = some t) : Current snapshots t := by
  cases a with
  | runCPUThread => exact h.runCPUThread hstep
  | getCPUUSage =>
    cases hstep
    exact h.getCPUUSage
  | destructor =>
    cases hstep
    exact ⟨h.sound.step .destructor (rfl : s.step snapshots .destructor = _), h.inHand,
      h.stored, h.le, h.sorted, h.value⟩

theorem current_run {actions : List CpuAction}
    (h : Run.run (CpuShared.step snapshots) init actions = some s) : Current snapshots s :=
  Run.run_invariant (Current snapshots) (fun _ a _ hs hstep => hs.step a hstep) current_init h

/-- However the steps are interleaved, every call returns the sample that is the last one stored
when it returns, and later calls never return earlier samples. -/
theorem returned_latest {actions : List CpuAction}
    (h : Run.run (CpuShared.step snapshots) init actions = some s) :
    (s.returned.map (·.1)).Pairwise (· ≤ ·) ∧
      ∀ p ∈ s.returned, p.1 ≤ s.stores ∧ p.2 = published snapshots p.1 := by
  have hcurrent := current_run h
  exact ⟨hcurrent.sorted, fun p hp => ⟨hcurrent.le p hp, hcurrent.value p hp⟩⟩

theorem returned_latest_still :
    ∃ s, Run.run (CpuShared.step stillSnapshots) init sampleActions = some s ∧
      s.returned.map (·.1) = [0, 2] ∧ ∀ p ∈ s.returned, p.2 = published stillSnapshots p.1 := by
  have hrun : (Run.run (CpuShared.step stillSnapshots) init sampleActions).map
      (·.returned.map (·.1)) = some [0, 2] := by
    decide +kernel
  obtain ⟨s, hs, hstores⟩ := Option.map_eq_some_iff.mp hrun
  exact ⟨s, hs, hstores, fun p hp => ((returned_latest hs).2 p hp).2⟩

/-! ### From `/proc/stat` to the text of the usage -/

/-- Counters that have grown a little, without a wrap of their sum. -/
structure Advances (old new : Ticks) : Prop where
  grows : old.Grows new
  pos : 0 < Ticks.elapsed old new
  lt : Ticks.elapsed old new < 2 ^ 32
  kept : CPUPrivate.SumKept old new

theorem published_info {ticks : ℕ → Ticks} (h : ∀ i, snapshots i = (ticks i).info) {k : ℕ}
    (hticks : Advances (ticks (2 * k)) (ticks (2 * k + 1))) :
    published snapshots (k + 1) = .finite (Ticks.usage (ticks (2 * k)) (ticks (2 * k + 1))) := by
  rw [published, h, h]
  exact CPUPrivate.calcCPUUsage_of_sumKept hticks.grows hticks.pos hticks.lt hticks.kept

theorem readDouble_getCpuUsage (q : ℚ) :
    Scan.readDouble (CPUMonitor.getCpuUsage (.finite q)) =
      some (.finite (fixed 2 q).value, []) := by
  have hspace : Blank (ascii " ") := by decide
  have hread := readDouble_toFixed hspace 2 q (by simp : Ends [])
  rwa [List.append_nil] at hread

/-- The usage in a reply is a number between 0 and 1: before the first sample it is 0, and then it
is the share of the ticks between two snapshots that were not idle, to two decimals. -/
theorem getCpuUsage_returned {ticks : ℕ → Ticks} {rest : ℕ → Bytes}
    (hrest : ∀ i, Stops isDigit (rest i))
    (hstat : ∀ i, CPUPrivate.getCPUInfo (.ofText ((ticks i).statText (rest i))) =
      some (snapshots i))
    {actions : List CpuAction} (h : Run.run (CpuShared.step snapshots) init actions = some s)
    (hticks : ∀ k < s.stores, Advances (ticks (2 * k)) (ticks (2 * k + 1))) :
    ∀ p ∈ s.returned, ∃ v : ℚ,
      Scan.readDouble (CPUMonitor.getCpuUsage p.2) = some (.finite v, []) ∧ 0 ≤ v ∧ v ≤ 1 ∧
      (p.1 = 0 → v = 0) ∧ ∀ k, p.1 = k + 1 →
        |v - Ticks.usage (ticks (2 * k)) (ticks (2 * k + 1))| ≤ 1 / 200 := by
  have hinfo : ∀ i, snapshots i = (ticks i).info := by
    intro i
    have hi := hstat i
    rw [Ticks.getCPUInfo_statText _ (hrest i), Option.some.injEq] at hi
    exact hi.symm
  rintro ⟨stores, x⟩ hp
  have hx : x = published snapshots stores := (current_run h).value _ hp
  have hle : stores ≤ s.stores := (current_run h).le _ hp
  cases stores with
  | zero =>
    obtain ⟨hnonneg, hle⟩ := value_fixed_mem (d := 2) (by decide) (le_refl (0 : ℚ)) (n := 0)
      (by simp)
    have hzero : (fixed 2 0).value = 0 := le_antisymm (by simpa using hle) hnonneg
    refine ⟨0, ?_, le_refl 0, zero_le_one, fun _ => rfl, (fun k hk => by cases hk)⟩
    rw [hx, published, Double.zero_def, readDouble_getCpuUsage, hzero]
  | succ k =>
    have hadvances := hticks k hle
    obtain ⟨hnonneg, hone⟩ := Ticks.usage_mem hadvances.grows
    obtain ⟨hv, hv'⟩ := value_fixed_mem (d := 2) (by decide) hnonneg (n := 1) (by simpa using hone)
    have hclose := abs_value_fixed_sub_le (d := 2) (by decide)
      (Ticks.usage (ticks (2 * k)) (ticks (2 * k + 1)))
    refine ⟨_, ?_, hv, by simpa using hv', (fun hk => by cases hk), ?_⟩
    · rw [hx, published_info hinfo hadvances, readDouble_getCpuUsage]
    · rintro j ⟨⟩
      norm_num at hclose ⊢
      exact hclose

theorem busy_lt (i : ℕ) : 40 * (i % 1000) < 2 ^ 64 := by omega

theorem idle_lt (i : ℕ) : 60 * (i % 1000) < 2 ^ 64 := by omega

theorem none_lt : 0 < 2 ^ 64 := by decide

/-- A hundred ticks a snapshot, sixty of them idle. -/
def steadyTicks (i : ℕ) : Ticks where
  user := 40 * (i % 1000)
  nice := 0
  system := 0
  idle := 60 * (i % 1000)
  iowait := 0
  irq := 0
  softirq := 0
  user_lt := busy_lt i
  nice_lt := none_lt
  system_lt := none_lt
  idle_lt := idle_lt i
  iowait_lt := none_lt
  irq_lt := none_lt
  softirq_lt := none_lt

theorem getCpuUsage_returned_steady :
    ∃ s, Run.run (CpuShared.step fun i => (steadyTicks i).info) init sampleActions = some s ∧
      s.returned.map (·.1) = [0, 2] ∧ ∀ p ∈ s.returned, ∃ v : ℚ,
        Scan.readDouble (CPUMonitor.getCpuUsage p.2) = some (.finite v, []) ∧ 0 ≤ v ∧ v ≤ 1 ∧
        (p.1 = 0 → v = 0) ∧ ∀ k, p.1 = k + 1 →
          |v - Ticks.usage (steadyTicks (2 * k)) (steadyTicks (2 * k + 1))| ≤ 1 / 200 := by
  have hrun : (Run.run (CpuShared.step fun i => (steadyTicks i).info) init sampleActions).map
      (fun s => (s.returned.map (·.1), s.stores)) = some ([0, 2], 2) := by
    decide +kernel
  obtain ⟨s, hs, heq⟩ := Option.map_eq_some_iff.mp hrun
  obtain ⟨hreturned, hstores⟩ := Prod.mk.inj heq
  have hrest : ∀ _ : ℕ, Stops isDigit [newline] := fun _ => by simp [isDigit, newline]
  refine ⟨s, hs, hreturned, getCpuUsage_returned hrest
    (fun i => Ticks.getCPUInfo_statText _ (hrest i)) hs fun k hk => ?_⟩
  rw [hstores] at hk
  interval_cases k
  · exact ⟨by constructor <;> decide, by decide, by decide, by decide⟩
  · exact ⟨by constructor <;> decide, by decide, by decide, by decide⟩

end CpuShared

end ComputerMonitor
