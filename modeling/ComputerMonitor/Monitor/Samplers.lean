import ComputerMonitor.CPUMonitor.Sampling
import ComputerMonitor.DiskMonitor.Publication
import ComputerMonitor.Support.Pool

/-! The sampler threads of all `CPUPrivate` and `DiskPrivate` objects, and the ends of these
objects. -/

namespace ComputerMonitor

open Stdio

/-- Where `DiskIOThread` stands: the steps of a `DiskIO` call are those of `IoShared`. -/
inductive DiskThread
  | test
  | calling
  | ended
  deriving DecidableEq

structure DiskShared where
  io : IoShared
  ioThreadRunning : Bool
  thread : DiskThread

namespace DiskShared

def init : DiskShared := ⟨IoShared.init, true, .test⟩

/-- The store of the write rate is the last step of a `DiskIO` call. -/
def diskIOThread (outputs : ℕ → Stream) (s : DiskShared) : Option DiskShared :=
  match s.thread with
  | .test => some { s with thread := if s.ioThreadRunning then .calling else .ended }
  | .calling =>
    some { s with
      io := s.io.diskIOThread outputs
      thread := match s.io.thread with
        | .storeWrite _ => .test
        | _ => .calling }
  | .ended => none

end DiskShared

inductive SamplerKind
  | cpuPrivate
  | diskPrivate

/-- What an object shares with its sampler thread, and where the thread stands. -/
inductive Sampler
  | cpuPrivate (s : CpuShared)
  | diskPrivate (s : DiskShared)

namespace Sampler

/-- The constructors start the threads. -/
def create : SamplerKind → Sampler
  | .cpuPrivate => .cpuPrivate CpuShared.init
  | .diskPrivate => .diskPrivate DiskShared.init

/-- What either destructor begins with. -/
def clear : Sampler → Sampler
  | .cpuPrivate s => .cpuPrivate { s with running := false }
  | .diskPrivate s => .diskPrivate { s with ioThreadRunning := false }

def Ended : Sampler → Prop
  | .cpuPrivate s => s.thread = .ended
  | .diskPrivate s => s.thread = .ended

/-- `~DiskPrivate` joins its thread, `~CPUPrivate` has detached it. -/
def joined : Sampler → Bool
  | .cpuPrivate _ => true
  | .diskPrivate s => s.thread = .ended

def next (snapshots : ℕ → CPUInfo) (outputs : ℕ → Stream) : Sampler → Option Sampler
  | .cpuPrivate s => (s.runCPUThread snapshots).map .cpuPrivate
  | .diskPrivate s => (s.diskIOThread outputs).map .diskPrivate

/-- The next step of the thread reads the flag or stores a sample. -/
def Touches : Sampler → Prop
  | .cpuPrivate s =>
    match s.thread with
    | .test | .store _ _ => True
    | _ => False
  | .diskPrivate s =>
    match s.thread, s.io.thread with
    | .test, _ | .calling, .storeRead _ _ | .calling, .storeWrite _ => True
    | _, _ => False

theorem next_of_ended {snapshots : ℕ → CPUInfo} {outputs : ℕ → Stream} {s : Sampler}
    (h : s.Ended) : s.next snapshots outputs = none := by
  cases s with
  | cpuPrivate s =>
    rw [next, CpuShared.runCPUThread, show s.thread = .ended from h]
    rfl
  | diskPrivate s =>
    rw [next, DiskShared.diskIOThread, show s.thread = .ended from h]
    rfl

theorem not_touches_of_ended {s : Sampler} (h : s.Ended) : ¬s.Touches := by
  cases s with
  | cpuPrivate s => simp [Touches, show s.thread = .ended from h]
  | diskPrivate s => simp [Touches, show s.thread = .ended from h]

end Sampler

/-- Whether the destructor has been called, and has returned. -/
inductive Life
  | alive
  | cleared
  | gone
  deriving DecidableEq

structure SamplerObject where
  sampler : Sampler
  life : Life

/-- The two ends of a destructor, and a step of the thread. -/
inductive SamplerAction
  | clear
  | leave
  | thread

namespace SamplerObject

def create (kind : SamplerKind) : SamplerObject := ⟨.create kind, .alive⟩

def act (snapshots : ℕ → ℕ → CPUInfo) (outputs : ℕ → ℕ → Stream) (i : ℕ) (o : SamplerObject) :
    SamplerAction → Option SamplerObject
  | .clear => if o.life = .alive then some ⟨o.sampler.clear, .cleared⟩ else none
  | .leave => if o.life = .cleared ∧ o.sampler.joined then some { o with life := .gone } else none
  | .thread => (o.sampler.next (snapshots i) (outputs i)).map fun s => { o with sampler := s }

/-- No step of the thread reads the flag or stores a sample once the destructor has returned. -/
def Untouched (o : SamplerObject) (e : SamplerAction) : Prop :=
  e = .thread → o.life = .gone → ¬o.sampler.Touches

/-- `~CPUPrivate` returns when its thread has left its loop. -/
def Waits (o : SamplerObject) (e : SamplerAction) : Prop :=
  e = .leave → ∀ s, o.sampler = .cpuPrivate s → s.thread = .ended

variable {snapshots : ℕ → ℕ → CPUInfo} {outputs : ℕ → ℕ → Stream}

/-- What an action does to an object. -/
theorem act_cases {i : ℕ} {o o' : SamplerObject} {e : SamplerAction}
    (h : act snapshots outputs i o e = some o') :
    (e = .clear ∧ o.life = .alive ∧ o' = ⟨o.sampler.clear, .cleared⟩) ∨
    (e = .leave ∧ o.life = .cleared ∧ o.sampler.joined = true ∧ o' = { o with life := .gone }) ∨
    (e = .thread ∧ ∃ s, o.sampler.next (snapshots i) (outputs i) = some s ∧
      o' = { o with sampler := s }) := by
  cases e with
  | clear =>
    obtain ⟨hlife, heq⟩ := Option.ite_none_right_eq_some.mp h
    exact .inl ⟨rfl, hlife, (Option.some.inj heq).symm⟩
  | leave =>
    obtain ⟨⟨hlife, hjoined⟩, heq⟩ := Option.ite_none_right_eq_some.mp h
    exact .inr (.inl ⟨rfl, hlife, hjoined, (Option.some.inj heq).symm⟩)
  | thread =>
    obtain ⟨s, hs, heq⟩ := Option.map_eq_some_iff.mp h
    exact .inr (.inr ⟨rfl, s, hs, heq.symm⟩)

/-! ### Destructors that wait -/

/-- When a destructor has returned, the thread has ended. -/
def Settled (o : SamplerObject) : Prop := o.life = .gone → o.sampler.Ended

theorem settled_create (kind : SamplerKind) : (create kind).Settled := by
  intro h
  cases h

theorem ended_of_waits {o : SamplerObject} (hwaits : o.Waits .leave)
    (hjoined : o.sampler.joined = true) : o.sampler.Ended := by
  cases hs : o.sampler with
  | cpuPrivate s => exact hwaits rfl s hs
  | diskPrivate s =>
    rw [hs] at hjoined
    exact of_decide_eq_true (p := s.thread = .ended) hjoined

theorem settled_act {i : ℕ} {o o' : SamplerObject} {e : SamplerAction} (h : o.Settled)
    (hwaits : o.Waits e) (hact : act snapshots outputs i o e = some o') : o'.Settled := by
  intro hgone
  rcases act_cases hact with ⟨rfl, -, rfl⟩ | ⟨rfl, -, hjoined, rfl⟩ | ⟨rfl, s, hs, rfl⟩
  · cases hgone
  · exact ended_of_waits hwaits hjoined
  · rw [Sampler.next_of_ended (h hgone)] at hs
    cases hs

theorem untouched_of_settled {o : SamplerObject} {e : SamplerAction} (h : o.Settled) :
    o.Untouched e :=
  fun _ hgone => Sampler.not_touches_of_ended (h hgone)

/-! ### A destructor that does not -/

/-- The destructor has returned while the detached thread goes on. -/
def Lingers (o : SamplerObject) : Prop :=
  o.life = .gone ∧ ∃ s, o.sampler = .cpuPrivate s ∧ s.thread ≠ .ended

theorem lingers_of_not_waits {i : ℕ} {o o' : SamplerObject} {e : SamplerAction}
    (hwaits : ¬o.Waits e) (hact : act snapshots outputs i o e = some o') : o'.Lingers := by
  simp only [Waits, Classical.not_imp, not_forall] at hwaits
  obtain ⟨rfl, s, hs, hrunning⟩ := hwaits
  rcases act_cases hact with ⟨he, -⟩ | ⟨-, -, -, rfl⟩ | ⟨he, -⟩
  · cases he
  · exact ⟨rfl, s, hs, hrunning⟩
  · cases he

/-- The thread would have to read the flag to end. -/
theorem lingers_act {i : ℕ} {o o' : SamplerObject} {e : SamplerAction} (h : o.Lingers)
    (huntouched : o.Untouched e) (hact : act snapshots outputs i o e = some o') : o'.Lingers := by
  obtain ⟨hgone, s, hs, hrunning⟩ := h
  rcases act_cases hact with ⟨-, hlife, -⟩ | ⟨-, hlife, -⟩ | ⟨rfl, s', hs', rfl⟩
  · rw [hgone] at hlife
    cases hlife
  · rw [hgone] at hlife
    cases hlife
  · refine ⟨hgone, ?_⟩
    have htouches := huntouched rfl hgone
    rw [hs] at hs' htouches
    obtain ⟨c, hc, rfl⟩ := Option.map_eq_some_iff.mp hs'
    refine ⟨c, rfl, ?_⟩
    cases hthread : s.thread with
    | test => simp [Sampler.Touches, hthread] at htouches
    | oldCPU =>
      simp only [CpuShared.runCPUThread, hthread, Option.some.injEq] at hc
      simp [← hc]
    | newCPU oldCPU =>
      simp only [CpuShared.runCPUThread, hthread, Option.some.injEq] at hc
      simp [← hc]
    | store oldCPU newCPU => simp [Sampler.Touches, hthread] at htouches
    | ended => exact absurd hthread hrunning

theorem act_cpuPrivate {i : ℕ} {s s' : CpuShared} {life : Life}
    (h : s.runCPUThread (snapshots i) = some s') :
    act snapshots outputs i ⟨.cpuPrivate s, life⟩ .thread = some ⟨.cpuPrivate s', life⟩ := by
  simp [act, Sampler.next, h]

/-- Left to itself, the thread gets where it touches the object. -/
def Returning (snapshots : ℕ → ℕ → CPUInfo) (outputs : ℕ → ℕ → Stream) (i : ℕ)
    (o : SamplerObject) : Prop :=
  ∃ n o', Run.run (act snapshots outputs i) o (List.replicate n .thread) = some o' ∧
    ¬o'.Untouched .thread

theorem Returning.of_act {i : ℕ} {o o' : SamplerObject}
    (hact : act snapshots outputs i o .thread = some o')
    (h : o'.Returning snapshots outputs i) : o.Returning snapshots outputs i := by
  obtain ⟨n, p, hrun, hp⟩ := h
  exact ⟨n + 1, p, Run.run_cons_eq_some_iff.mpr ⟨o', hact, hrun⟩, hp⟩

/-- It reads the flag again, or stores a sample before. -/
theorem Lingers.returning {o : SamplerObject} (h : o.Lingers) (i : ℕ) :
    o.Returning snapshots outputs i := by
  obtain ⟨sampler, life⟩ := o
  obtain ⟨rfl, s, rfl, hrunning⟩ := h
  have hstore : ∀ (s : CpuShared) oldCPU newCPU, s.thread = .store oldCPU newCPU →
      Returning snapshots outputs i ⟨.cpuPrivate s, .gone⟩ := by
    intro s oldCPU newCPU hthread
    exact ⟨0, _, rfl, by simp [Untouched, Sampler.Touches, hthread]⟩
  have hnewCPU : ∀ (s : CpuShared) oldCPU, s.thread = .newCPU oldCPU →
      Returning snapshots outputs i ⟨.cpuPrivate s, .gone⟩ := by
    intro s oldCPU hthread
    apply Returning.of_act (act_cpuPrivate (by rw [CpuShared.runCPUThread, hthread]))
    exact hstore _ _ _ rfl
  cases hthread : s.thread with
  | test => exact ⟨0, _, rfl, by simp [Untouched, Sampler.Touches, hthread]⟩
  | oldCPU =>
    apply Returning.of_act (act_cpuPrivate (by rw [CpuShared.runCPUThread, hthread]))
    exact hnewCPU _ _ rfl
  | newCPU oldCPU => exact hnewCPU s oldCPU hthread
  | store oldCPU newCPU => exact hstore s oldCPU newCPU hthread
  | ended => exact absurd hthread hrunning

/-! ### Runs -/

variable (snapshots outputs) in
/-- Objects are created, destroyed and sampled for in any order. -/
def step : List SamplerObject → Pool.Event SamplerKind SamplerAction →
    Option (List SamplerObject) :=
  Pool.step create (act snapshots outputs)

/-- A step of a sampler thread, as opposed to one of an owner. -/
def OfThread (e : Pool.Event SamplerKind SamplerAction) : Prop := ∃ i, e = .act i .thread

theorem diskPrivate_of_act {i : ℕ} {o o' : SamplerObject} {e : SamplerAction}
    (hact : act snapshots outputs i o e = some o') {s' : DiskShared}
    (h : o'.sampler = .diskPrivate s') : ∃ s, o.sampler = .diskPrivate s := by
  cases hs : o.sampler with
  | diskPrivate s => exact ⟨s, rfl⟩
  | cpuPrivate s =>
    rcases act_cases hact with ⟨-, -, rfl⟩ | ⟨-, -, -, rfl⟩ | ⟨-, s', hs', rfl⟩
    · rw [hs] at h
      cases h
    · rw [hs] at h
      cases h
    · rw [hs] at hs'
      obtain ⟨c, -, rfl⟩ := Option.map_eq_some_iff.mp hs'
      cases h

/-- Whatever the schedule, the thread of a `DiskPrivate` does not touch it behind its destructor. -/
theorem untouched_diskPrivate (events : List (Pool.Event SamplerKind SamplerAction)) :
    Run.Along (step snapshots outputs)
      (Pool.Each fun o e => (∃ s, o.sampler = .diskPrivate s) → o.Untouched e) [] events := by
  apply Pool.along_of_invariant (I := fun o => (∃ s, o.sampler = .diskPrivate s) → o.Settled)
    (C := fun _ _ => True)
  · intro kind _
    exact settled_create kind
  · rintro i o e o' h - hact ⟨s', hs'⟩
    obtain ⟨s, hs⟩ := diskPrivate_of_act hact hs'
    apply settled_act (h ⟨s, hs⟩) _ hact
    intro _ c hc
    rw [hs] at hc
    cases hc
  · intro o e h _ hdisk
    exact untouched_of_settled (h hdisk)
  · simp
  · apply Run.along_of_forall
    intro e _ s
    cases e with
    | create kind => trivial
    | act i e => exact fun _ _ => trivial

theorem along_untouched {events : List (Pool.Event SamplerKind SamplerAction)}
    (h : Run.Along (step snapshots outputs) (Pool.Each Waits) [] events) :
    Run.Along (step snapshots outputs) (Pool.Each Untouched) [] events :=
  Pool.along_of_invariant settled_create (fun _ _ _ _ => settled_act)
    (fun _ _ h _ => untouched_of_settled h) (by simp) h

theorem ofThread_replicate (i n : ℕ) :
    ∀ e ∈ (List.replicate n SamplerAction.thread ++ [SamplerAction.thread]).map
      (Pool.Event.act i), OfThread e := by
  intro e he
  rw [← List.replicate_succ', List.map_replicate] at he
  exact ⟨i, List.eq_of_mem_replicate he⟩

theorem OfThread.each_waits {e : Pool.Event SamplerKind SamplerAction} (h : OfThread e)
    (s : List SamplerObject) : Pool.Each Waits s e := by
  obtain ⟨i, rfl⟩ := h
  intro o _ he
  cases he

/-- No thread touches a destroyed object, in a run and however the threads go on behind it, exactly
if no `~CPUPrivate` has returned before its thread had left its loop. -/
theorem untouched_iff {events : List (Pool.Event SamplerKind SamplerAction)}
    {t : List SamplerObject} (h : Run.run (step snapshots outputs) [] events = some t) :
    (∀ more, (∀ e ∈ more, OfThread e) →
      Run.Along (step snapshots outputs) (Pool.Each Untouched) [] (events ++ more)) ↔
      Run.Along (step snapshots outputs) (Pool.Each Waits) [] events := by
  constructor
  · intro huntouched
    by_contra hwaits
    have hnow := (Run.along_append h).mp (huntouched [] (by simp))
    obtain ⟨i, o, hget, hlingers⟩ := Pool.exists_of_not_along
      (fun _ _ _ _ => lingers_of_not_waits) (fun _ _ _ _ => lingers_act) h hnow.1 hwaits
    have hreturning : o.Returning snapshots outputs i := hlingers.returning i
    obtain ⟨n, o', hown, hnot⟩ := hreturning
    have hmore := huntouched _ (ofThread_replicate i n)
    exact Pool.not_along_map_act hget hown hnot ((Run.along_append h).mp hmore).2
  · intro hwaits more hmore
    apply along_untouched
    rw [Run.along_append h]
    exact ⟨hwaits, Run.along_of_forall fun e he s => (hmore e he).each_waits s⟩

/-- Two objects, one of them destroyed when its thread has seen the flag cleared. -/
def waited : List (Pool.Event SamplerKind SamplerAction) :=
  [.create .cpuPrivate, .create .diskPrivate, .act 0 .clear, .act 0 .thread, .act 0 .leave]

theorem untouched_iff_waited :
    let system := step (fun _ => CpuShared.stillSnapshots) fun _ _ => .ofText []
    Run.Along system (Pool.Each Waits) [] waited ∧
      Run.Along system (Pool.Each Untouched) [] (waited ++ [.act 1 .thread]) := by
  intro system
  have hwaits : Run.Along system (Pool.Each Waits) [] waited := by
    refine ⟨trivial, ?_⟩
    rintro _ ⟨⟩
    refine ⟨trivial, ?_⟩
    rintro _ ⟨⟩
    refine ⟨by simp [Pool.Each, Waits], ?_⟩
    rintro _ ⟨⟩
    refine ⟨by simp [Pool.Each, Waits], ?_⟩
    rintro _ ⟨⟩
    refine ⟨?_, fun _ _ => trivial⟩
    rintro _ ⟨⟩ - _ ⟨⟩
    rfl
  refine ⟨hwaits, (untouched_iff (by rfl)).mpr hwaits _ ?_⟩
  simp [OfThread]

/-- The flag is cleared, the destructor returns, and only then does the thread come to its test. -/
theorem not_untouched_detached :
    ¬∀ snapshots outputs events t, Run.run (step snapshots outputs) [] events = some t →
      Run.Along (step snapshots outputs) (Pool.Each Untouched) [] events := by
  intro h
  have huntouched := h (fun _ => CpuShared.stillSnapshots) (fun _ _ => .ofText [])
    [.create .cpuPrivate, .act 0 .clear, .act 0 .leave, .act 0 .thread] _ rfl
  have hthread := (((huntouched.2 _ rfl).2 _ rfl).2 _ rfl).1 _ rfl
  exact hthread rfl rfl trivial

end SamplerObject

end ComputerMonitor
