import ComputerMonitor.DiskMonitor.Publication

/-! How far the rates that successive calls of `GetDiskIO` return can be apart. -/

namespace ComputerMonitor

namespace Calls

/-- The number of steps the thread has made before all loads still to come of calls that are or
will be made. -/
def since (c : Calls) : ℕ :=
  match c.pending with
  | .idle => c.steps
  | .read n => n
  | .write n => n

/-- From `start` steps on: one call is over when the next begins. -/
structure Ordered (start : ℕ) (c : Calls) : Prop where
  notAfter : c.pending.NotAfter c.steps
  start_le : start ≤ c.since
  pairwise : c.calls.Pairwise fun p q => max p.1 p.2 ≤ min q.1 q.2
  bounds : ∀ p ∈ c.calls, start ≤ min p.1 p.2 ∧ max p.1 p.2 ≤ c.since

theorem ordered_idle (n : ℕ) : Ordered n ⟨n, .idle, []⟩ :=
  ⟨trivial, le_refl n, List.Pairwise.nil, List.forall_mem_nil _⟩

variable {start : ℕ} {c : Calls}

theorem Ordered.call (h : c.Ordered start) {p : ℕ × ℕ} (hmin : min p.1 p.2 = c.since)
    (hmax : max p.1 p.2 = c.steps) :
    Ordered start { c with pending := .idle, calls := c.calls ++ [p] } := by
  have hstart : start ≤ min p.1 p.2 := hmin ▸ h.start_le
  have hle : min p.1 p.2 ≤ c.steps := hmax ▸ min_le_max
  refine ⟨trivial, hstart.trans hle, ?_, ?_⟩
  · rw [List.pairwise_append]
    refine ⟨h.pairwise, List.pairwise_singleton _ _, ?_⟩
    intro q hq r hr
    rw [List.mem_singleton.mp hr, hmin]
    exact (h.bounds q hq).2
  · intro q hq
    rcases List.mem_append.mp hq with hq | hq
    · exact ⟨(h.bounds q hq).1, (h.bounds q hq).2.trans (hmin ▸ hle)⟩
    · rw [List.mem_singleton.mp hq]
      exact ⟨hstart, hmax.le⟩

theorem Ordered.step (h : c.Ordered start) (a : IoAction) : (c.step a).Ordered start := by
  have hnot := h.notAfter
  cases a with
  | diskIOThread =>
    have hsince : c.since ≤ (c.step .diskIOThread).since := by
      simp only [Calls.step, since]
      split <;> omega
    exact ⟨hnot.succ, h.start_le.trans hsince, h.pairwise,
      fun p hp => ⟨(h.bounds p hp).1, (h.bounds p hp).2.trans hsince⟩⟩
  | getDiskIO readFirst =>
    cases hpending : c.pending with
    | idle =>
      have hsince : c.since = c.steps := by simp [since, hpending]
      have hstart := h.start_le
      have hbounds := h.bounds
      rw [hsince] at hstart hbounds
      simp only [Calls.step, hpending]
      cases readFirst with
      | true => exact ⟨le_refl c.steps, hstart, h.pairwise, hbounds⟩
      | false => exact ⟨le_refl c.steps, hstart, h.pairwise, hbounds⟩
    | read n =>
      rw [hpending] at hnot
      have hn : n ≤ c.steps := hnot
      simp only [Calls.step, hpending]
      exact h.call (by simp [since, hpending, hn]) (max_eq_right hn)
    | write n =>
      rw [hpending] at hnot
      have hn : n ≤ c.steps := hnot
      simp only [Calls.step, hpending]
      exact h.call (by simp [since, hpending, hn]) (max_eq_left hn)

theorem Ordered.foldl (schedule : List IoAction) (h : c.Ordered start) :
    (schedule.foldl Calls.step c).Ordered start := by
  induction schedule generalizing c with
  | nil => exact h
  | cons a schedule ih => exact ih (h.step a)

/-- The same behind earlier calls. -/
def after (calls : List (ℕ × ℕ)) (c : Calls) : Calls := { c with calls := calls ++ c.calls }

theorem step_after (calls : List (ℕ × ℕ)) (c : Calls) (a : IoAction) :
    (c.after calls).step a = (c.step a).after calls := by
  cases a with
  | diskIOThread => rfl
  | getDiskIO readFirst =>
    obtain ⟨steps, pending, _⟩ := c
    cases pending <;> simp [step, after]

/-- Where no call is under way, the rest of a schedule adds calls both of whose loads are behind the
steps made so far. -/
theorem exists_calls_append {before : List IoAction} (hidle : (ofSchedule before).pending = .idle)
    (more : List IoAction) :
    ∃ calls, (ofSchedule (before ++ more)).calls = (ofSchedule before).calls ++ calls ∧
      calls.Pairwise (fun p q => max p.1 p.2 ≤ min q.1 q.2) ∧
      ∀ p ∈ calls, (ofSchedule before).steps ≤ min p.1 p.2 := by
  have happend : ofSchedule (before ++ more) = more.foldl step (ofSchedule before) :=
    List.foldl_append
  rw [happend]
  generalize ofSchedule before = c at hidle
  obtain ⟨steps, _, calls⟩ := c
  cases hidle
  have hordered := (ordered_idle steps).foldl more
  have hafter : (⟨steps, .idle, calls⟩ : Calls) = after calls ⟨steps, .idle, []⟩ := by simp [after]
  refine ⟨_, ?_, hordered.pairwise, fun p hp => (hordered.bounds p hp).1⟩
  rw [hafter, List.foldl_hom (after calls) fun c a => step_after calls c a]
  simp [after]

end Calls

/-- The thread is at most one store of a read rate ahead of its stores of write rates. -/
theorem stores_bounds {m n : ℕ} (h : m ≤ n) :
    readStores m ≤ readStores n ∧ writeStores m ≤ writeStores n ∧
      readStores m ≤ writeStores n + 1 ∧ writeStores m ≤ readStores n := by
  simp only [readStores, writeStores]
  omega

/-- The second pair of stores is not behind the first; across the two rates, it is behind by one at
most. -/
structure Succeeds (c c' : ℕ × ℕ) : Prop where
  read : c.1 ≤ c'.1
  write : c.2 ≤ c'.2
  readWrite : c.1 ≤ c'.2 + 1
  writeRead : c.2 ≤ c'.1

theorem succeeds_of_le {p q : ℕ × ℕ} (h : max p.1 p.2 ≤ min q.1 q.2) :
    Succeeds (readStores p.1, writeStores p.2) (readStores q.1, writeStores q.2) := by
  obtain ⟨hread, hwrite⟩ := max_le_iff.mp h
  obtain ⟨hread1, hread2⟩ := le_min_iff.mp hread
  obtain ⟨hwrite1, hwrite2⟩ := le_min_iff.mp hwrite
  exact ⟨(stores_bounds hread1).1, (stores_bounds hwrite2).2.1, (stores_bounds hread2).2.2.1,
    (stores_bounds hwrite1).2.2.2⟩

theorem Succeeds.pred {c c' : ℕ × ℕ} (h : Succeeds c c') :
    Succeeds (c.1 - 1, c.2 - 1) (c'.1 - 1, c'.2 - 1) where
  read := Nat.sub_le_sub_right h.read 1
  write := Nat.sub_le_sub_right h.write 1
  readWrite := by
    have := h.readWrite
    omega
  writeRead := Nat.sub_le_sub_right h.writeRead 1

/-- The first pair of rates has been published. -/
def IoShared.Published (s : IoShared) : Prop := s.diskWriteIO.isSome = true

section

variable {outputs : ℕ → Stdio.Stream} {rates : ℕ → Double × Double}

theorem stored_of_pos (value : ℕ → Double) {n : ℕ} (h : 0 < n) :
    stored value n = some (value (n - 1)) := by
  obtain ⟨n, rfl⟩ := Nat.exists_eq_succ_of_ne_zero h.ne'
  rfl

theorem Follows.published_iff {s : IoShared} {c : Calls} (hf : Follows rates s c) :
    s.Published ↔ 3 ≤ c.steps := by
  rw [IoShared.Published, hf.diskWriteIO, isSome_loadWrite]

theorem Follows.pending_eq_idle {s : IoShared} {c : Calls} (hf : Follows rates s c)
    (h : s.caller = .idle) : c.pending = .idle := by
  have hcaller := hf.caller
  rw [h] at hcaller
  cases hpending : c.pending with
  | idle => rfl
  | read n =>
    rw [hpending] at hcaller
    cases hcaller
  | write n =>
    rw [hpending] at hcaller
    cases hcaller

/-- After the first publication, whatever the schedule, each call returns the rates of two samples.
No call returns an earlier sample's than a call before it, and a read rate is at most one sample
ahead of the write rate of a later call. -/
theorem returned_succeeds (h : ∀ i, DiskPrivate.diskIO (outputs i) = some (rates i))
    {before : List IoAction}
    (hpublished : (IoShared.run outputs before).Published)
    (hidle : (IoShared.run outputs before).caller = .idle) (more : List IoAction) :
    ∃ samples : List (ℕ × ℕ),
      (IoShared.run outputs (before ++ more)).returned =
        (IoShared.run outputs before).returned ++
          samples.map (fun c => (some (rates c.1).1, some (rates c.2).2)) ∧
      samples.Pairwise Succeeds ∧
      ∀ c ∈ samples, max c.1 c.2 < (IoShared.run outputs (before ++ more)).samples := by
  have hf := follows_run h before
  have hf' := follows_run h (before ++ more)
  rw [hf.published_iff] at hpublished
  obtain ⟨calls, hcalls, hpairwise, hstart⟩ :=
    Calls.exists_calls_append (hf.pending_eq_idle hidle) more
  have hthree : ∀ p ∈ calls, 3 ≤ p.1 ∧ 3 ≤ p.2 :=
    fun p hp => le_min_iff.mp (hpublished.trans (hstart p hp))
  refine ⟨calls.map fun p => (readStores p.1 - 1, writeStores p.2 - 1), ?_, ?_, ?_⟩
  · have hlate : calls.filter (fun p => 3 ≤ max p.1 p.2) = calls := by
      rw [List.filter_eq_self]
      exact fun p hp => decide_eq_true (le_max_of_le_left (hthree p hp).1)
    rw [hf'.returned, hf.returned, Calls.late, Calls.late, hcalls, List.filter_append, hlate,
      List.map_append, List.map_map]
    refine congrArg _ (List.map_congr_left fun p hp => ?_)
    have hread : 0 < readStores p.1 := Nat.div_pos (Nat.le_succ_of_le (hthree p hp).1) (by decide)
    have hwrite : 0 < writeStores p.2 := Nat.div_pos (hthree p hp).2 (by decide)
    exact Prod.ext (stored_of_pos _ hread) (stored_of_pos _ hwrite)
  · rw [List.pairwise_map]
    exact hpairwise.imp fun hle => (succeeds_of_le hle).pred
  · intro c hc
    obtain ⟨p, hp, rfl⟩ := List.mem_map.mp hc
    have hle := hf'.bounded p (by simp [hcalls, hp])
    have hlow := hthree p hp
    rw [hf'.samples]
    simp only [readStores, writeStores]
    omega

end

/-- The first publication is complete, and of the second only the read rate has been stored. -/
def published : List IoAction := List.replicate 5 .diskIOThread

/-- A call between the two stores of the second sample and one behind them. -/
theorem returned_succeeds_counting :
    ∃ samples : List (ℕ × ℕ), samples.length = 2 ∧
      (IoShared.run countingOutputs (published ++ [IoAction.getDiskIO true,
        IoAction.getDiskIO true, .diskIOThread, IoAction.getDiskIO false,
        IoAction.getDiskIO false])).returned =
        samples.map (fun c => (some (countingRates c.1).1, some (countingRates c.2).2)) ∧
      samples.Pairwise Succeeds := by
  have hf := follows_run diskIO_countingOutputs published
  have hpublished : (IoShared.run countingOutputs published).Published := by
    rw [hf.published_iff]
    decide
  have hnone : (IoShared.run countingOutputs published).returned = [] := hf.returned
  obtain ⟨samples, hreturned, hpairwise, -⟩ :=
    returned_succeeds diskIO_countingOutputs hpublished hf.caller [IoAction.getDiskIO true,
      IoAction.getDiskIO true, .diskIOThread, IoAction.getDiskIO false, IoAction.getDiskIO false]
  rw [hnone, List.nil_append] at hreturned
  refine ⟨samples, ?_, hreturned, hpairwise⟩
  have hlength := congrArg List.length hreturned
  rw [(follows_run diskIO_countingOutputs _).returned, List.length_map, List.length_map] at hlength
  exact hlength.symm

end ComputerMonitor
