import ComputerMonitor.Monitor.Samplers

/-! What is left of a sampler thread when its destructor has begun. -/

namespace ComputerMonitor

open Stdio

namespace Sampler

def running : Sampler → Bool
  | .cpuPrivate s => s.running
  | .diskPrivate s => s.ioThreadRunning

/-- How many samples the thread has taken: for a `CPUPrivate`, has stored. -/
def samples : Sampler → ℕ
  | .cpuPrivate s => s.stores
  | .diskPrivate s => s.io.samples

/-- The steps up to the end of a thread that will find its flag cleared. -/
def left : Sampler → ℕ
  | .cpuPrivate s =>
    match s.thread with
    | .test => 1
    | .oldCPU => 4
    | .newCPU _ => 3
    | .store _ _ => 2
    | .ended => 0
  | .diskPrivate s =>
    match s.thread, s.io.thread with
    | .test, _ => 1
    | .calling, .sampling => 4
    | .calling, .storeRead _ _ => 3
    | .calling, .storeWrite _ => 2
    | .ended, _ => 0

/-- Whether one more sample will come of a round that has begun. -/
def begun : Sampler → ℕ
  | .cpuPrivate s =>
    match s.thread with
    | .test => 0
    | .oldCPU => 1
    | .newCPU _ => 1
    | .store _ _ => 1
    | .ended => 0
  | .diskPrivate s =>
    match s.thread, s.io.thread with
    | .calling, .sampling => 1
    | _, _ => 0

theorem left_le (s : Sampler) : s.left ≤ 4 := by
  cases s with
  | cpuPrivate s => cases h : s.thread <;> simp [left, h]
  | diskPrivate s => cases h : s.thread <;> cases h' : s.io.thread <;> simp [left, h, h']

theorem begun_le (s : Sampler) : s.begun ≤ 1 := by
  cases s with
  | cpuPrivate s => cases h : s.thread <;> simp [begun, h]
  | diskPrivate s => cases h : s.thread <;> cases h' : s.io.thread <;> simp [begun, h, h']

theorem ended_iff_left (s : Sampler) : s.Ended ↔ s.left = 0 := by
  cases s with
  | cpuPrivate s => cases h : s.thread <;> simp [left, Ended, h]
  | diskPrivate s => cases h : s.thread <;> cases h' : s.io.thread <;> simp [left, Ended, h, h']

section

variable {snapshots : ℕ → CPUInfo} {outputs : ℕ → Stream}

theorem left_runCPUThread {s s' : CpuShared} (hflag : s.running = false)
    (h : s.runCPUThread snapshots = some s') :
    s'.running = false ∧ left (.cpuPrivate s) = left (.cpuPrivate s') + 1 ∧
      s.stores + begun (.cpuPrivate s) = s'.stores + begun (.cpuPrivate s') := by
  rw [CpuShared.runCPUThread] at h
  cases hthread : s.thread with
  | ended =>
    rw [hthread] at h
    cases h
  | _ =>
    simp only [hthread, Option.some.injEq] at h
    simp [left, begun, hthread, hflag, ← h]

theorem left_diskIOThread {s s' : DiskShared} (hflag : s.ioThreadRunning = false)
    (hsampled : ∀ j, (DiskPrivate.diskIO (outputs j)).isSome = true)
    (h : s.diskIOThread outputs = some s') :
    s'.ioThreadRunning = false ∧ left (.diskPrivate s) = left (.diskPrivate s') + 1 ∧
      s.io.samples + begun (.diskPrivate s) = s'.io.samples + begun (.diskPrivate s') := by
  rw [DiskShared.diskIOThread] at h
  cases hthread : s.thread with
  | test =>
    simp only [hthread, hflag] at h
    cases h
    simp [left, begun, hthread]
  | calling =>
    obtain ⟨rates, hrates⟩ := Option.isSome_iff_exists.mp (hsampled s.io.samples)
    cases hio : s.io.thread <;>
    · simp only [hthread, hio, IoShared.diskIOThread, hrates] at h
      cases h
      simp [left, begun, hthread, hio, hflag]
  | ended =>
    rw [hthread] at h
    cases h

theorem left_next {s s' : Sampler} (hflag : s.running = false)
    (hsampled : ∀ j, (DiskPrivate.diskIO (outputs j)).isSome = true)
    (h : s.next snapshots outputs = some s') :
    s'.running = false ∧ s.left = s'.left + 1 ∧ s.samples + s.begun = s'.samples + s'.begun := by
  cases s with
  | cpuPrivate s =>
    obtain ⟨c, hc, rfl⟩ := Option.map_eq_some_iff.mp h
    exact left_runCPUThread hflag hc
  | diskPrivate s =>
    obtain ⟨c, hc, rfl⟩ := Option.map_eq_some_iff.mp h
    exact left_diskIOThread hflag hsampled hc

/-- Only a thread that has ended takes no further step. -/
theorem exists_next {s : Sampler} (h : ¬s.Ended) : ∃ s', s.next snapshots outputs = some s' := by
  cases s with
  | cpuPrivate s =>
    cases hthread : s.thread with
    | ended => exact absurd hthread h
    | _ => simp [next, CpuShared.runCPUThread, hthread]
  | diskPrivate s =>
    cases hthread : s.thread with
    | ended => exact absurd hthread h
    | _ => simp [next, DiskShared.diskIOThread, hthread]

end

end Sampler

def SamplerAction.isThread : SamplerAction → Bool
  | .clear => false
  | .leave => false
  | .thread => true

namespace SamplerObject

/-- The destructor has begun, and with it the flag is cleared. -/
structure Cleared (o : SamplerObject) : Prop where
  life : o.life ≠ .alive
  running : o.sampler.running = false

variable {snapshots : ℕ → ℕ → CPUInfo} {outputs : ℕ → ℕ → Stream}

theorem running_clear (s : Sampler) : s.clear.running = false := by
  cases s <;> rfl

/-- The flag of an object whose destructor has begun is cleared. -/
theorem cleared_act {i : ℕ} {o o' : SamplerObject} {e : SamplerAction}
    (hsampled : ∀ i j, (DiskPrivate.diskIO (outputs i j)).isSome = true)
    (h : o.life ≠ .alive → o.Cleared) (hact : act snapshots outputs i o e = some o') :
    o'.life ≠ .alive → o'.Cleared := by
  intro hlife
  rcases act_cases hact with ⟨rfl, -, rfl⟩ | ⟨rfl, hcleared, -, rfl⟩ | ⟨rfl, s, hs, rfl⟩
  · exact ⟨hlife, running_clear _⟩
  · exact ⟨hlife, (h (by simp [hcleared])).running⟩
  · exact ⟨hlife, (Sampler.left_next (h hlife).running (hsampled i) hs).1⟩

/-- Its thread nears its end with each step, and nothing else concerns it. -/
theorem left_act {i : ℕ} {o o' : SamplerObject} {e : SamplerAction}
    (hsampled : ∀ i j, (DiskPrivate.diskIO (outputs i j)).isSome = true) (h : o.Cleared)
    (hact : act snapshots outputs i o e = some o') :
    o'.Cleared ∧ o.sampler.left = o'.sampler.left + (if e.isThread then 1 else 0) ∧
      o.sampler.samples + o.sampler.begun = o'.sampler.samples + o'.sampler.begun := by
  rcases act_cases hact with ⟨rfl, halive, -⟩ | ⟨rfl, -, -, rfl⟩ | ⟨rfl, s, hs, rfl⟩
  · exact absurd halive h.life
  · exact ⟨⟨by simp, h.running⟩, rfl, rfl⟩
  · obtain ⟨hrunning, hleft, hsamples⟩ := Sampler.left_next h.running (hsampled i) hs
    exact ⟨⟨h.life, hrunning⟩, hleft, hsamples⟩

theorem cleared_of_run {events : List (Pool.Event SamplerKind SamplerAction)}
    {s : List SamplerObject}
    (hsampled : ∀ i j, (DiskPrivate.diskIO (outputs i j)).isSome = true)
    (hs : Run.run (step snapshots outputs) [] events = some s) :
    ∀ o ∈ s, o.life ≠ .alive → o.Cleared := by
  apply Run.run_invariant (fun s => ∀ o ∈ s, o.life ≠ .alive → o.Cleared) _ (by simp) hs
  intro s e t h hstep
  refine Pool.forall_of_step (C := fun _ _ => True) ?_ ?_ h ?_ hstep
  · intro kind hlife
    exact absurd rfl hlife
  · intro i o e o' ho _ hact
    exact cleared_act hsampled ho hact
  · cases e with
    | create kind => trivial
    | act i e => exact fun _ _ => trivial

theorem settled_of_run {events : List (Pool.Event SamplerKind SamplerAction)}
    {s t : List SamplerObject} (h : ∀ o ∈ s, o.Settled)
    (hwaits : Run.Along (step snapshots outputs) (Pool.Each Waits) s events)
    (ht : Run.run (step snapshots outputs) s events = some t) : ∀ o ∈ t, o.Settled :=
  hwaits.run_invariant (fun s => ∀ o ∈ s, o.Settled)
    (fun _ _ _ hs hC hstep => Pool.forall_of_step settled_create (fun _ _ _ _ => settled_act) hs hC
      hstep) h ht

/-- As long as no `~CPUPrivate` returns before its thread has left its loop: from the moment its
destructor clears the flag, in whatever order all threads and owners go on, a sampler thread has a
fixed number of steps left, at most four, of which none gets stuck; it has ended exactly when it has
taken them, which it has when the destructor returns, and has taken at most one more sample. -/
theorem exists_left {events : List (Pool.Event SamplerKind SamplerAction)}
    {s : List SamplerObject} {i : ℕ} {o : SamplerObject}
    (hsampled : ∀ i j, (DiskPrivate.diskIO (outputs i j)).isSome = true)
    (hwaits : Run.Along (step snapshots outputs) (Pool.Each Waits) [] events)
    (hs : Run.run (step snapshots outputs) [] events = some s) (hget : s[i]? = some o)
    (hlife : o.life ≠ .alive) :
    ∃ m ≤ 4, ∀ more t, Run.Along (step snapshots outputs) (Pool.Each Waits) s more →
      Run.run (step snapshots outputs) s more = some t →
      ∃ o', t[i]? = some o' ∧ more.countP (Pool.Event.isOwn i SamplerAction.isThread) ≤ m ∧
        (o'.sampler.Ended ↔ more.countP (Pool.Event.isOwn i SamplerAction.isThread) = m) ∧
        (o'.life = .gone → o'.sampler.Ended) ∧
        (¬o'.sampler.Ended → ∃ u, step snapshots outputs t (.act i .thread) = some u) ∧
        o'.sampler.samples ≤ o.sampler.samples + 1 := by
  have hcleared := cleared_of_run hsampled hs o (List.mem_of_getElem? hget) hlife
  have hsettled := settled_of_run (by simp) hwaits hs
  refine ⟨o.sampler.left, o.sampler.left_le, fun more t hmore ht => ?_⟩
  obtain ⟨o', hget', -, hleft⟩ := Pool.measure_of_run (P := Cleared) (μ := fun o => o.sampler.left)
    SamplerAction.isThread (fun _ _ _ _ h hact =>
      ⟨(left_act hsampled h hact).1, (left_act hsampled h hact).2.1⟩) hget hcleared ht
  obtain ⟨p, hgetp, -, hsamples⟩ := Pool.measure_of_run (P := Cleared)
    (μ := fun o => o.sampler.samples + o.sampler.begun) (fun _ => false)
    (fun _ _ _ _ h hact => ⟨(left_act hsampled h hact).1, (left_act hsampled h hact).2.2⟩)
    hget hcleared ht
  obtain rfl : o' = p := Option.some.inj (hget'.symm.trans hgetp)
  have hnone : more.countP (Pool.Event.isOwn (κ := SamplerKind) i fun _ => false) = 0 := by
    apply List.countP_eq_zero.mpr
    intro e _
    cases e <;> simp [Pool.Event.isOwn]
  have hbegun := o.sampler.begun_le
  rw [hnone] at hsamples
  refine ⟨o', hget', by omega, ?_, ?_, ?_, by omega⟩
  · rw [Sampler.ended_iff_left]
    omega
  · exact settled_of_run hsettled hmore ht o' (List.mem_of_getElem? hget')
  · intro hrunning
    obtain ⟨s', hs'⟩ : ∃ s', o'.sampler.next (snapshots i) (outputs i) = some s' :=
      Sampler.exists_next hrunning
    exact ⟨_, Pool.step_act_eq_some_iff.mpr ⟨o', { o' with sampler := s' }, hget',
      by simp [act, hs'], rfl⟩⟩

/-- A `DiskPrivate` whose destructor clears the flag while `iostat` runs, beside a `CPUPrivate`. -/
def clearedEvents : List (Pool.Event SamplerKind SamplerAction) :=
  [.create .cpuPrivate, .create .diskPrivate, .act 1 .thread, .act 1 .clear]

theorem exists_left_cleared :
    ∃ m ≤ 4, ∃ s o, Run.run (step (fun _ => CpuShared.stillSnapshots) fun _ => countingOutputs) []
        clearedEvents = some s ∧ s[1]? = some o ∧
      ∀ more t, Run.Along (step (fun _ => CpuShared.stillSnapshots) fun _ => countingOutputs)
          (Pool.Each Waits) s more →
        Run.run (step (fun _ => CpuShared.stillSnapshots) fun _ => countingOutputs) s more =
          some t → ∃ o', t[1]? = some o' ∧
          more.countP (Pool.Event.isOwn 1 SamplerAction.isThread) ≤ m ∧
          (o'.life = .gone → o'.sampler.Ended) ∧
          o'.sampler.samples ≤ o.sampler.samples + 1 := by
  have hsampled : ∀ i j : ℕ, (DiskPrivate.diskIO (countingOutputs j)).isSome = true := by
    intro _ j
    rw [diskIO_countingOutputs]
    rfl
  have hrun : Run.run (step (fun _ => CpuShared.stillSnapshots) fun _ => countingOutputs) []
      clearedEvents = some _ := rfl
  have hwaits : Run.Along (step (fun _ => CpuShared.stillSnapshots) fun _ => countingOutputs)
      (Pool.Each Waits) [] clearedEvents := by
    apply Run.along_of_forall
    intro e he s
    simp only [clearedEvents, List.mem_cons, List.not_mem_nil, or_false] at he
    rcases he with rfl | rfl | rfl | rfl <;> simp [Pool.Each, Waits]
  obtain ⟨m, hm, hall⟩ := exists_left (i := 1) hsampled hwaits hrun rfl (by simp)
  refine ⟨m, hm, _, _, rfl, rfl, fun more t hmore ht => ?_⟩
  obtain ⟨o', hget, hle, -, hgone, -, hsamples⟩ := hall more t hmore ht
  exact ⟨o', hget, hle, hgone, hsamples⟩

end SamplerObject

end ComputerMonitor
