import ComputerMonitor.DiskMonitor.Report

/-! The pair of rates on its way from `DiskIOThread`, which publishes it with two stores, to
`GetDiskIO`, which takes it with two loads. -/

namespace ComputerMonitor

open Stdio

/-- Where `DiskIOThread` stands. -/
inductive IoThread
  | sampling
  | storeRead (read write : Double)
  | storeWrite (write : Double)

/-- Where the caller of `GetDiskIO` stands. -/
inductive IoCaller
  | idle
  | readLoaded (read : Option Double)
  | writeLoaded (write : Option Double)

/-- An atomic that has never been stored to is `none`. -/
structure IoShared where
  samples : ℕ
  thread : IoThread
  diskReadIO : Option Double
  diskWriteIO : Option Double
  caller : IoCaller
  /-- What `GetDiskIO` has returned since the first `DiskIO` call was complete. -/
  returned : List (Option Double × Option Double)

/-- A step of either side.  In which order the two arguments of `make_tuple` are evaluated is
unspecified, so a call begins with either load. -/
inductive IoAction
  | diskIOThread
  | getDiskIO (readFirst : Bool)

namespace IoShared

def init : IoShared := ⟨0, .sampling, none, none, .idle, []⟩

/-- One step of the thread: a run of `iostat`, or one store.  It does not get past a run that ends
in undefined behaviour. -/
def diskIOThread (outputs : ℕ → Stream) (s : IoShared) : IoShared :=
  match s.thread with
  | .sampling =>
    match DiskPrivate.diskIO (outputs s.samples) with
    | some (read, write) =>
      { s with samples := s.samples + 1, thread := .storeRead read write }
    | none => s
  | .storeRead read write => { s with diskReadIO := some read, thread := .storeWrite write }
  | .storeWrite write => { s with diskWriteIO := some write, thread := .sampling }

def giveBack (s : IoShared) (rates : Option Double × Option Double) : IoShared :=
  { s with
    caller := .idle
    returned := if s.diskWriteIO.isSome then s.returned ++ [rates] else s.returned }

/-- One load of `GetDiskIO`. -/
def getDiskIO (readFirst : Bool) (s : IoShared) : IoShared :=
  match s.caller with
  | .idle =>
    if readFirst then { s with caller := .readLoaded s.diskReadIO }
    else { s with caller := .writeLoaded s.diskWriteIO }
  | .readLoaded read => s.giveBack (read, s.diskWriteIO)
  | .writeLoaded write => s.giveBack (s.diskReadIO, write)

def step (outputs : ℕ → Stream) (s : IoShared) : IoAction → IoShared
  | .diskIOThread => s.diskIOThread outputs
  | IoAction.getDiskIO readFirst => s.getDiskIO readFirst

def run (outputs : ℕ → Stream) (schedule : List IoAction) : IoShared :=
  schedule.foldl (step outputs) init

end IoShared

/-! ### Schedules -/

/-- A call that has made its first load: after how many steps of the thread, and of which rate. -/
inductive Pending
  | idle
  | read (n : ℕ)
  | write (n : ℕ)

/-- What a schedule alone says about its calls: the numbers of steps the thread has made before the
load of the read rate and before that of the write rate. -/
structure Calls where
  steps : ℕ
  pending : Pending
  calls : List (ℕ × ℕ)

namespace Calls

def step (c : Calls) : IoAction → Calls
  | .diskIOThread => { c with steps := c.steps + 1 }
  | IoAction.getDiskIO readFirst =>
    match c.pending with
    | .idle => { c with pending := if readFirst then .read c.steps else .write c.steps }
    | .read n => { c with pending := .idle, calls := c.calls ++ [(n, c.steps)] }
    | .write n => { c with pending := .idle, calls := c.calls ++ [(c.steps, n)] }

def ofSchedule (schedule : List IoAction) : Calls := schedule.foldl step ⟨0, .idle, []⟩

end Calls

/-- The thread stores a read rate with every second step of three and a write rate with every third,
so this is how many it has stored after `n` steps. -/
def readStores (n : ℕ) : ℕ := (n + 1) / 3

def writeStores (n : ℕ) : ℕ := n / 3

/-- No publication is caught half-way: in every call that returns after the first publication, as
many `DiskIO` calls have stored their read rate before its load as have stored their write rate
before the load of that. -/
def Unbroken (schedule : List IoAction) : Prop :=
  ∀ c ∈ (Calls.ofSchedule schedule).calls, 3 ≤ max c.1 c.2 → readStores c.1 = writeStores c.2

/-! ### Runs and their schedules -/

/-- What an atomic holds after `n` stores. -/
def stored (value : ℕ → Double) : ℕ → Option Double
  | 0 => none
  | n + 1 => some (value n)

def IoThread.after (rates : ℕ → Double × Double) (n : ℕ) : IoThread :=
  if n % 3 = 0 then .sampling
  else if n % 3 = 1 then .storeRead (rates (n / 3)).1 (rates (n / 3)).2
  else .storeWrite (rates (n / 3)).2

theorem IoThread.after_sampling (rates : ℕ → Double × Double) (k : ℕ) :
    IoThread.after rates (3 * k) = .sampling := by
  simp [after]

theorem IoThread.after_storeRead (rates : ℕ → Double × Double) (k : ℕ) :
    IoThread.after rates (3 * k + 1) = .storeRead (rates k).1 (rates k).2 := by
  simp [after, Nat.add_mod, show (3 * k + 1) / 3 = k by omega]

theorem IoThread.after_storeWrite (rates : ℕ → Double × Double) (k : ℕ) :
    IoThread.after rates (3 * k + 2) = .storeWrite (rates k).2 := by
  simp [after, Nat.add_mod, show (3 * k + 2) / 3 = k by omega]

def loadRead (rates : ℕ → Double × Double) (n : ℕ) : Option Double :=
  stored (fun i => (rates i).1) (readStores n)

def loadWrite (rates : ℕ → Double × Double) (n : ℕ) : Option Double :=
  stored (fun i => (rates i).2) (writeStores n)

def IoCaller.after (rates : ℕ → Double × Double) : Pending → IoCaller
  | .idle => .idle
  | .read n => .readLoaded (loadRead rates n)
  | .write n => .writeLoaded (loadWrite rates n)

def Pending.NotAfter (steps : ℕ) : Pending → Prop
  | .idle => True
  | .read n => n ≤ steps
  | .write n => n ≤ steps

theorem Pending.NotAfter.succ {steps : ℕ} {p : Pending} (h : p.NotAfter steps) :
    p.NotAfter (steps + 1) := by
  cases p with
  | idle => trivial
  | read n => exact Nat.le_succ_of_le h
  | write n => exact Nat.le_succ_of_le h

/-- The calls that return after the first publication. -/
def Calls.late (c : Calls) : List (ℕ × ℕ) := c.calls.filter fun p => 3 ≤ max p.1 p.2

/-- A run is determined by the counts of its schedule. -/
structure Follows (rates : ℕ → Double × Double) (s : IoShared) (c : Calls) : Prop where
  samples : s.samples = (c.steps + 2) / 3
  thread : s.thread = .after rates c.steps
  diskReadIO : s.diskReadIO = loadRead rates c.steps
  diskWriteIO : s.diskWriteIO = loadWrite rates c.steps
  caller : s.caller = .after rates c.pending
  notAfter : c.pending.NotAfter c.steps
  bounded : ∀ p ∈ c.calls, max p.1 p.2 ≤ c.steps
  returned : s.returned = c.late.map fun p => (loadRead rates p.1, loadWrite rates p.2)

section Follows

variable {outputs : ℕ → Stream} {rates : ℕ → Double × Double}

theorem isSome_loadWrite (rates : ℕ → Double × Double) (n : ℕ) :
    (loadWrite rates n).isSome = true ↔ 3 ≤ n := by
  rw [loadWrite, writeStores]
  cases h : n / 3 with
  | zero =>
    simp only [stored, Option.isSome_none, Bool.false_eq_true, false_iff]
    omega
  | succ k =>
    simp only [stored, Option.isSome_some, true_iff]
    omega

/-- A step of the thread, by what it does: a sample, the store of the read rate, or the store of
the write rate. -/
theorem Follows.diskIOThread (h : ∀ i, DiskPrivate.diskIO (outputs i) = some (rates i))
    {s : IoShared} {c : Calls} (hf : Follows rates s c) :
    Follows rates (s.diskIOThread outputs) (c.step .diskIOThread) := by
  obtain ⟨hsamples, hthread, hread, hwrite, hcaller, hnot, hbound, hret⟩ := hf
  have hbound' : ∀ p ∈ c.calls, max p.1 p.2 ≤ c.steps + 1 := fun p hp =>
    Nat.le_succ_of_le (hbound p hp)
  obtain ⟨k, hk⟩ : ∃ k, c.steps = 3 * k ∨ c.steps = 3 * k + 1 ∨ c.steps = 3 * k + 2 :=
    ⟨c.steps / 3, by omega⟩
  rcases hk with hk | hk | hk
  · rw [hk] at hsamples hthread hread hwrite
    rw [IoThread.after_sampling] at hthread
    have hk' : s.samples = k := by omega
    simp only [IoShared.diskIOThread, hthread, hk', h]
    refine ⟨?_, ?_, ?_, ?_, hcaller, hnot.succ, hbound', hret⟩
    · simp only [Calls.step, hk]
      omega
    · simp only [Calls.step, hk, IoThread.after_storeRead]
    · simp only [Calls.step, hk, hread, loadRead, readStores]
      congr 1
      omega
    · simp only [Calls.step, hk, hwrite, loadWrite, writeStores]
      congr 1
      omega
  · rw [hk] at hsamples hthread hread hwrite
    rw [IoThread.after_storeRead] at hthread
    simp only [IoShared.diskIOThread, hthread]
    refine ⟨?_, ?_, ?_, ?_, hcaller, hnot.succ, hbound', hret⟩
    · simp only [Calls.step, hk, hsamples]
      omega
    · simp only [Calls.step, hk, IoThread.after_storeWrite]
    · simp only [Calls.step, hk, loadRead, readStores,
        show (3 * k + 1 + 1 + 1) / 3 = k + 1 by omega,
        stored]
    · simp only [Calls.step, hk, hwrite, loadWrite, writeStores]
      congr 1
      omega
  · rw [hk] at hsamples hthread hread hwrite
    rw [IoThread.after_storeWrite] at hthread
    simp only [IoShared.diskIOThread, hthread]
    refine ⟨?_, ?_, ?_, ?_, hcaller, hnot.succ, hbound', hret⟩
    · simp only [Calls.step, hk, hsamples]
      omega
    · simp only [Calls.step, hk, show 3 * k + 2 + 1 = 3 * (k + 1) by omega,
        IoThread.after_sampling]
    · simp only [Calls.step, hk, hread, loadRead, readStores]
      congr 1
      omega
    · simp only [Calls.step, hk, loadWrite, writeStores, show (3 * k + 2 + 1) / 3 = k + 1 by omega,
        stored]

theorem Follows.giveBack {s : IoShared} {c : Calls} (hf : Follows rates s c) {p : ℕ × ℕ}
    (hp : max p.1 p.2 = c.steps) :
    Follows rates (s.giveBack (loadRead rates p.1, loadWrite rates p.2))
      { c with pending := .idle, calls := c.calls ++ [p] } := by
  obtain ⟨hsamples, hthread, hread, hwrite, -, -, hbound, hret⟩ := hf
  refine ⟨hsamples, hthread, hread, hwrite, rfl, trivial, ?_, ?_⟩
  · intro q hq
    rcases List.mem_append.mp hq with hq | hq
    · exact hbound q hq
    · rw [List.mem_singleton.mp hq]
      exact hp.le
  have hsome : s.diskWriteIO.isSome = true ↔ 3 ≤ max p.1 p.2 := by
    rw [hwrite, isSome_loadWrite, hp]
  by_cases h : 3 ≤ max p.1 p.2
  · have hfilter : [p].filter (fun p => 3 ≤ max p.1 p.2) = [p] :=
      List.filter_cons_of_pos (by simpa using h)
    simp only [IoShared.giveBack, Calls.late, hsome.mpr h, List.filter_append, hfilter, if_true,
      hret, List.map_append, List.map_singleton]
  · have hfilter : [p].filter (fun p => 3 ≤ max p.1 p.2) = [] :=
      List.filter_cons_of_neg (by simpa using h)
    simp only [IoShared.giveBack, Calls.late, mt hsome.mp h, List.filter_append, hfilter,
      Bool.false_eq_true, if_false, hret, List.append_nil]

theorem Follows.getDiskIO {s : IoShared} {c : Calls} (hf : Follows rates s c) (readFirst : Bool) :
    Follows rates (s.getDiskIO readFirst) (c.step (IoAction.getDiskIO readFirst)) := by
  have hcaller := hf.caller
  have hnot := hf.notAfter
  cases hp : c.pending with
  | idle =>
    rw [hp] at hcaller
    obtain ⟨hsamples, hthread, hread, hwrite, -, -, hbound, hret⟩ := hf
    cases readFirst with
    | true =>
      simp only [IoShared.getDiskIO, hcaller, IoCaller.after, Calls.step, hp, if_true]
      exact ⟨hsamples, hthread, hread, hwrite, by rw [hread]; rfl, le_refl c.steps,
        hbound, hret⟩
    | false =>
      simp only [IoShared.getDiskIO, hcaller, IoCaller.after, Calls.step, hp, Bool.false_eq_true,
        if_false]
      exact ⟨hsamples, hthread, hread, hwrite, by rw [hwrite]; rfl, le_refl c.steps,
        hbound, hret⟩
  | read n =>
    rw [hp] at hcaller hnot
    have hn : n ≤ c.steps := hnot
    have hback := hf.giveBack (p := (n, c.steps)) (max_eq_right hn)
    simpa only [IoShared.getDiskIO, hcaller, IoCaller.after, Calls.step, hp, hf.diskWriteIO]
      using hback
  | write n =>
    rw [hp] at hcaller hnot
    have hn : n ≤ c.steps := hnot
    have hback := hf.giveBack (p := (c.steps, n)) (max_eq_left hn)
    simpa only [IoShared.getDiskIO, hcaller, IoCaller.after, Calls.step, hp, hf.diskReadIO]
      using hback

theorem Follows.step (h : ∀ i, DiskPrivate.diskIO (outputs i) = some (rates i)) {s : IoShared}
    {c : Calls} (hf : Follows rates s c) (a : IoAction) :
    Follows rates (s.step outputs a) (c.step a) := by
  cases a with
  | diskIOThread => exact hf.diskIOThread h
  | getDiskIO readFirst => exact hf.getDiskIO readFirst

theorem Follows.foldl (h : ∀ i, DiskPrivate.diskIO (outputs i) = some (rates i))
    (schedule : List IoAction) {s : IoShared} {c : Calls} (hf : Follows rates s c) :
    Follows rates (schedule.foldl (IoShared.step outputs) s) (schedule.foldl Calls.step c) := by
  induction schedule generalizing s c with
  | nil => exact hf
  | cons a schedule ih => exact ih (hf.step h a)

/-- Every run follows its schedule. -/
theorem follows_run (h : ∀ i, DiskPrivate.diskIO (outputs i) = some (rates i))
    (schedule : List IoAction) :
    Follows rates (IoShared.run outputs schedule) (Calls.ofSchedule schedule) := by
  refine Follows.foldl h schedule ⟨rfl, ?_, rfl, rfl, rfl, trivial, by simp, rfl⟩
  exact (IoThread.after_sampling rates 0).symm

end Follows

/-! ### Pairs of one sample -/

/-- A pair that one of the first `samples` calls of `DiskIO` has computed. -/
def OfOneSample (rates : ℕ → Double × Double) (samples : ℕ) (p : Option Double × Option Double) :
    Prop :=
  ∃ i < samples, p = (some (rates i).1, some (rates i).2)

theorem ofOneSample_of_stores_eq (rates : ℕ → Double × Double) {p : ℕ × ℕ} {steps : ℕ}
    (hlate : 3 ≤ max p.1 p.2) (hle : max p.1 p.2 ≤ steps)
    (h : readStores p.1 = writeStores p.2) :
    OfOneSample rates ((steps + 2) / 3) (loadRead rates p.1, loadWrite rates p.2) := by
  cases hk : writeStores p.2 with
  | zero =>
    rw [hk] at h
    simp only [readStores, writeStores] at h hk
    omega
  | succ k =>
    refine ⟨k, ?_, by simp [loadRead, loadWrite, h, hk, stored]⟩
    simp only [writeStores] at hk
    omega

/-- A disk that reads and writes 1 kB a second. -/
def unitRow : IoRow where
  __ := DiskPrivate.sampleIoRow
  read := .ofNat 1
  write := .ofNat 1
  fits := by decide

/-- Outputs of `iostat` that can be told apart: the `i`-th lists `i` such disks. -/
def countingReport (i : ℕ) : IoReport where
  __ := DiskPrivate.sampleReport
  rows := List.replicate i unitRow
  trailing := []

theorem whole_countingReport (i : ℕ) : (countingReport i).Whole where
  __ := DiskPrivate.whole_sampleReport
  rows := fun row hrow => by
    rw [List.eq_of_mem_replicate hrow]
    exact ⟨by decide, by decide⟩
  trailing := List.forall_mem_nil _

def countingOutputs (i : ℕ) : Stream := .ofText (countingReport i).text

def countingRates (i : ℕ) : Double × Double := (.finite i, .finite i)

theorem diskIO_countingOutputs (i : ℕ) :
    DiskPrivate.diskIO (countingOutputs i) = some (countingRates i) := by
  have hfit : DiskPrivate.sampleTitle.token.length < 20 := by decide
  have hpub : (countingReport i).published = ((i : ℚ), (i : ℚ)) := by
    simp [IoReport.published, IoReport.total, countingReport, unitRow, IoRow.rates]
  rw [countingOutputs, IoReport.diskIO_text (whole_countingReport i) hfit, hpub, countingRates]

theorem stores_eq_of_ofOneSample {p : ℕ × ℕ} {samples : ℕ}
    (h : OfOneSample countingRates samples
      (loadRead countingRates p.1, loadWrite countingRates p.2)) :
    readStores p.1 = writeStores p.2 := by
  have hstored : ∀ {n i : ℕ}, stored (fun i => (.finite i : Double)) n = some (.finite i) →
      n = i + 1 := by
    intro n i hn
    cases n with
    | zero => cases hn
    | succ n => simpa [stored] using hn
  obtain ⟨i, -, hi⟩ := h
  rw [Prod.mk.injEq] at hi
  rw [hstored hi.1, hstored hi.2]

/-- A schedule keeps all pairs whole, whatever `iostat` reports, exactly if none of its calls
catches a publication half-way. -/
theorem returned_ofOneSample_iff (schedule : List IoAction) :
    (∀ (outputs : ℕ → Stream) (rates : ℕ → Double × Double),
      (∀ i, DiskPrivate.diskIO (outputs i) = some (rates i)) →
      ∀ p ∈ (IoShared.run outputs schedule).returned,
        OfOneSample rates (IoShared.run outputs schedule).samples p) ↔ Unbroken schedule := by
  constructor
  · intro h c hc hlate
    have hf := follows_run diskIO_countingOutputs schedule
    refine stores_eq_of_ofOneSample
      (h countingOutputs countingRates diskIO_countingOutputs _ ?_)
    rw [hf.returned]
    exact List.mem_map_of_mem (List.mem_filter.mpr ⟨hc, by simpa using hlate⟩)
  · intro h outputs rates hrates p hp
    have hf := follows_run hrates schedule
    rw [hf.returned] at hp
    obtain ⟨c, hc, rfl⟩ := List.mem_map.mp hp
    obtain ⟨hmem, hlate⟩ := List.mem_filter.mp hc
    have hlate : 3 ≤ max c.1 c.2 := by simpa using hlate
    rw [hf.samples]
    exact ofOneSample_of_stores_eq rates hlate (hf.bounded c hmem) (h c hmem hlate)

/-- The first publication is complete, and of the second only the read rate has been stored when
a call makes its two loads. -/
def brokenSchedule : List IoAction :=
  List.replicate 5 .diskIOThread ++ [IoAction.getDiskIO true, IoAction.getDiskIO true]

/-- The call returns the read rate of the second sample with the write rate of the first. -/
theorem returned_not_ofOneSample :
    ¬∀ (outputs : ℕ → Stream) (rates : ℕ → Double × Double) (schedule : List IoAction),
      (∀ i, DiskPrivate.diskIO (outputs i) = some (rates i)) →
      ∀ p ∈ (IoShared.run outputs schedule).returned,
        OfOneSample rates (IoShared.run outputs schedule).samples p := by
  intro h
  have hf := follows_run diskIO_countingOutputs brokenSchedule
  have hmem : (loadRead countingRates 5, loadWrite countingRates 5) ∈
      (IoShared.run countingOutputs brokenSchedule).returned := by
    rw [hf.returned]
    exact List.mem_map_of_mem (a := (5, 5)) (by decide)
  have := stores_eq_of_ofOneSample (p := (5, 5))
    (h countingOutputs countingRates brokenSchedule diskIO_countingOutputs _ hmem)
  revert this
  decide

end ComputerMonitor
