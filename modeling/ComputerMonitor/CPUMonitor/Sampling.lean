import ComputerMonitor.CPUMonitor.Usage
import ComputerMonitor.Support.Run

/-! The usage on its way from `RunCPUThread` to `GetCPUUSage`, which loads it twice. -/

namespace ComputerMonitor

namespace Double

/-- Neither negative nor NaN. -/
def NonNeg (x : Double) : Prop := x ≠ .nan ∧ Double.lt x 0 = false

theorem nonNeg_zero : NonNeg 0 := ⟨by decide, by decide⟩

theorem nonNeg_of_pos {x : Double} (h : Double.lt 0 x = true) : NonNeg x := by
  cases x with
  | finite q =>
    have hpos : 0 < q := by simpa [zero_def] using h
    exact ⟨by simp, by simpa [zero_def] using hpos.le⟩
  | inf s => cases s <;> simp [NonNeg, lt] at h ⊢
  | nan => cases h

theorem NonNeg.ne_neg_one {x : Double} (h : NonNeg x) : x ≠ -1 := by
  rintro rfl
  exact absurd h.2 (by decide)

end Double

open Double

namespace CPUPrivate

theorem nonNeg_calcCPUUsage (oldInfo newInfo : CPUInfo) :
    NonNeg (calcCPUUsage oldInfo newInfo) := by
  simp only [calcCPUUsage]
  split
  · exact nonNeg_of_pos ‹_›
  · exact nonNeg_zero

end CPUPrivate

/-- Where `RunCPUThread` stands. -/
inductive CpuThread
  | test
  | oldCPU
  | newCPU (oldCPU : CPUInfo)
  | store (oldCPU newCPU : CPUInfo)
  | ended

/-- Where the caller of `GetCPUUSage` stands: outside, or between its two loads. -/
inductive CpuCaller
  | idle
  | checked
  deriving DecidableEq

/-- What is returned is noted with the number of stores before it. -/
structure CpuShared where
  cpuUsage : Double
  running : Bool
  samples : ℕ
  stores : ℕ
  thread : CpuThread
  caller : CpuCaller
  returned : List (ℕ × Double)

inductive CpuAction
  | runCPUThread
  | getCPUUSage
  | destructor

namespace CpuShared

def init : CpuShared := ⟨-1, true, 0, 0, .test, .idle, []⟩

/-- One step of the thread; its sleep is the time other steps take before the next. -/
def runCPUThread (snapshots : ℕ → CPUInfo) (s : CpuShared) : Option CpuShared :=
  match s.thread with
  | .test => some { s with thread := if s.running then .oldCPU else .ended }
  | .oldCPU =>
    some { s with samples := s.samples + 1, thread := .newCPU (snapshots s.samples) }
  | .newCPU oldCPU =>
    some { s with samples := s.samples + 1, thread := .store oldCPU (snapshots s.samples) }
  | .store oldCPU newCPU =>
    some { s with cpuUsage := CPUPrivate.calcCPUUsage oldCPU newCPU, stores := s.stores + 1,
                  thread := .test }
  | .ended => none

def giveBack (s : CpuShared) (x : Double) : CpuShared :=
  { s with caller := .idle, returned := s.returned ++ [(s.stores, x)] }

/-- One load of `GetCPUUSage`. -/
def getCPUUSage (s : CpuShared) : CpuShared :=
  match s.caller with
  | .idle => if Double.lt s.cpuUsage 0 then s.giveBack 0 else { s with caller := .checked }
  | .checked => s.giveBack s.cpuUsage

def step (snapshots : ℕ → CPUInfo) (s : CpuShared) : CpuAction → Option CpuShared
  | .runCPUThread => s.runCPUThread snapshots
  | .getCPUUSage => some s.getCPUUSage
  | .destructor => some { s with running := false }

/-- The sentinel stays until the first store and never comes back; a caller gets past its check only
behind that store. -/
structure Sound (s : CpuShared) : Prop where
  sentinel : s.stores = 0 → s.cpuUsage = -1
  stored : 0 < s.stores → NonNeg s.cpuUsage
  checked : s.caller = .checked → 0 < s.stores
  returned : ∀ p ∈ s.returned, NonNeg p.2 ∧ (p.1 = 0 → p.2 = 0)

theorem sound_init : Sound init := by
  constructor
  · intro _
    rfl
  · intro h
    cases h
  · intro h
    cases h
  · intro p h
    cases h

theorem Sound.runCPUThread {snapshots : ℕ → CPUInfo} {s t : CpuShared} (h : Sound s)
    (hstep : s.runCPUThread snapshots = some t) : Sound t := by
  rw [CpuShared.runCPUThread] at hstep
  cases hthread : s.thread with
  | test =>
    rw [hthread] at hstep
    cases hstep
    exact ⟨h.sentinel, h.stored, h.checked, h.returned⟩
  | oldCPU =>
    rw [hthread] at hstep
    cases hstep
    exact ⟨h.sentinel, h.stored, h.checked, h.returned⟩
  | newCPU oldCPU =>
    rw [hthread] at hstep
    cases hstep
    exact ⟨h.sentinel, h.stored, h.checked, h.returned⟩
  | store oldCPU newCPU =>
    rw [hthread] at hstep
    cases hstep
    constructor
    · intro hstores
      cases hstores
    · intro _
      exact CPUPrivate.nonNeg_calcCPUUsage oldCPU newCPU
    · intro _
      exact Nat.succ_pos _
    · exact h.returned
  | ended =>
    rw [hthread] at hstep
    cases hstep

theorem Sound.giveBack {s : CpuShared} (h : Sound s) {x : Double} (hx : NonNeg x)
    (hfirst : s.stores = 0 → x = 0) : Sound (s.giveBack x) := by
  refine ⟨h.sentinel, h.stored, ?_, ?_⟩
  · intro hchecked
    cases hchecked
  · intro p hp
    rcases List.mem_append.mp hp with hp | hp
    · exact h.returned p hp
    · rw [List.mem_singleton.mp hp]
      exact ⟨hx, hfirst⟩

/-- The two loads may find two different samples; the second is behind a store as the first is. -/
theorem Sound.getCPUUSage {s : CpuShared} (h : Sound s) : Sound s.getCPUUSage := by
  rw [CpuShared.getCPUUSage]
  cases hcaller : s.caller with
  | idle =>
    simp only
    split
    · exact h.giveBack nonNeg_zero fun _ => rfl
    · rename_i hlt
      refine ⟨h.sentinel, h.stored, fun _ => ?_, h.returned⟩
      by_contra hnone
      rw [h.sentinel (Nat.eq_zero_of_not_pos hnone)] at hlt
      exact hlt (by decide)
  | checked =>
    have hpos := h.checked hcaller
    apply h.giveBack (h.stored hpos)
    intro hnone
    omega

theorem Sound.step {snapshots : ℕ → CPUInfo} {s t : CpuShared} (h : Sound s) (a : CpuAction)
    (hstep : s.step snapshots a = some t) : Sound t := by
  cases a with
  | runCPUThread => exact h.runCPUThread hstep
  | getCPUUSage =>
    cases hstep
    exact h.getCPUUSage
  | destructor =>
    cases hstep
    exact ⟨h.sentinel, h.stored, h.checked, h.returned⟩

/-- `CalcCPUUsage` never computes a negative value or NaN, and however its stores fall between the
loads of `GetCPUUSage`, no call returns one, or the sentinel. -/
theorem nonNeg_returned {snapshots : ℕ → CPUInfo} {actions : List CpuAction} {s : CpuShared}
    (h : Run.run (step snapshots) init actions = some s) :
    (∀ oldInfo newInfo, NonNeg (CPUPrivate.calcCPUUsage oldInfo newInfo)) ∧
      ∀ p ∈ s.returned, NonNeg p.2 ∧ p.2 ≠ -1 ∧ (p.1 = 0 → p.2 = 0) := by
  have hsound : Sound s :=
    Run.run_invariant Sound (fun _ a _ hs hstep => hs.step a hstep) sound_init h
  refine ⟨CPUPrivate.nonNeg_calcCPUUsage, fun p hp => ?_⟩
  obtain ⟨hnonneg, hfirst⟩ := hsound.returned p hp
  exact ⟨hnonneg, hnonneg.ne_neg_one, hfirst⟩

/-- Counters that do not move: 0 is divided by 0. -/
def stillSnapshots (_ : ℕ) : CPUInfo := CPUPrivate.afterWrap.info

/-- One call before the first store, and one with the second store between its loads. -/
def sampleActions : List CpuAction :=
  [CpuAction.getCPUUSage] ++ List.replicate 4 CpuAction.runCPUThread ++ [CpuAction.getCPUUSage] ++
    List.replicate 4 CpuAction.runCPUThread ++ [CpuAction.getCPUUSage]

theorem nonNeg_returned_still :
    ∃ s, Run.run (step stillSnapshots) init sampleActions = some s ∧ s.returned.length = 2 ∧
      ∀ p ∈ s.returned, NonNeg p.2 ∧ p.2 ≠ -1 ∧ (p.1 = 0 → p.2 = 0) := by
  have hrun : (Run.run (step stillSnapshots) init sampleActions).map (·.returned.length) =
      some 2 := by
    decide +kernel
  obtain ⟨s, hs, hlength⟩ := Option.map_eq_some_iff.mp hrun
  exact ⟨s, hs, hlength, (nonNeg_returned hs).2⟩

end CpuShared

end ComputerMonitor
