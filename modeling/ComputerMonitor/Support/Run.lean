import Mathlib

/-! Runs of a system that takes a step at each event, where not every event is possible in every
state. -/

namespace ComputerMonitor.Run

variable {σ ε : Type*} {step : σ → ε → Option σ}

def run (step : σ → ε → Option σ) (s : σ) (events : List ε) : Option σ := events.foldlM step s

@[simp] theorem run_nil (s : σ) : run step s [] = some s := rfl

theorem run_cons_eq_some_iff {s t : σ} {e : ε} {events : List ε} :
    run step s (e :: events) = some t ↔ ∃ u, step s e = some u ∧ run step u events = some t := by
  rw [run, List.foldlM_cons]
  exact Option.bind_eq_some_iff

/-- What every step keeps holds at the end of a run that starts with it. -/
theorem run_invariant (I : σ → Prop) (hstep : ∀ s e t, I s → step s e = some t → I t) {s t : σ}
    {events : List ε} (hs : I s) (h : run step s events = some t) : I t := by
  induction events generalizing s with
  | nil =>
    cases h
    exact hs
  | cons e events ih =>
    obtain ⟨u, hu, hrest⟩ := run_cons_eq_some_iff.mp h
    exact ih (hstep s e u hs hu) hrest

/-- All events of the run satisfy `C` in the state where they happen. -/
def Along (step : σ → ε → Option σ) (C : σ → ε → Prop) (s : σ) : List ε → Prop
  | [] => True
  | e :: events => C s e ∧ ∀ t, step s e = some t → Along step C t events

theorem along_cons_iff {C : σ → ε → Prop} {s t : σ} {e : ε} {events : List ε}
    (h : step s e = some t) : Along step C s (e :: events) ↔ C s e ∧ Along step C t events := by
  simp [Along, h]

theorem along_of_forall {C : σ → ε → Prop} {s : σ} {events : List ε}
    (h : ∀ e ∈ events, ∀ s, C s e) : Along step C s events := by
  induction events generalizing s with
  | nil => trivial
  | cons e events ih =>
    rw [List.forall_mem_cons] at h
    exact ⟨h.1 s, fun t _ => ih h.2⟩

theorem along_append {C : σ → ε → Prop} {s t : σ} {events more : List ε}
    (h : run step s events = some t) :
    Along step C s (events ++ more) ↔ Along step C s events ∧ Along step C t more := by
  induction events generalizing s with
  | nil =>
    cases h
    simp [Along]
  | cons e events ih =>
    obtain ⟨u, hu, hrest⟩ := run_cons_eq_some_iff.mp h
    rw [List.cons_append, along_cons_iff hu, along_cons_iff hu, ih hrest, and_assoc]

/-- What every step that happens under `C` keeps holds at the end of a run that does so all along. -/
theorem Along.run_invariant {C : σ → ε → Prop} (I : σ → Prop)
    (hstep : ∀ s e t, I s → C s e → step s e = some t → I t) {s t : σ} {events : List ε}
    (hC : Along step C s events) (hs : I s) (h : run step s events = some t) : I t := by
  induction events generalizing s with
  | nil =>
    cases h
    exact hs
  | cons e events ih =>
    obtain ⟨u, hu, hrest⟩ := run_cons_eq_some_iff.mp h
    exact ih (hC.2 u hu) (hstep s e u hs hC.1 hu) hrest

/-- Under an invariant, one condition on events follows from another. -/
theorem Along.of_invariant {I : σ → Prop} {C D : σ → ε → Prop}
    (hstep : ∀ s e t, I s → C s e → step s e = some t → I t)
    (h : ∀ s e, I s → C s e → D s e) {s : σ}
    {events : List ε} (hs : I s) (hC : Along step C s events) : Along step D s events := by
  induction events generalizing s with
  | nil => trivial
  | cons e events ih =>
    exact ⟨h s e hs hC.1, fun t ht => ih (hstep s e t hs hC.1 ht) (hC.2 t ht)⟩

/-- The countdown rule: what takes `m` more of the events in `tick` has come about by the end of a
run with that many. -/
theorem of_countdown {P : σ → Prop} {W : ℕ → σ → Prop} {tick : ε → Bool}
    (hP : ∀ s e t, P s → step s e = some t → P t) (hzero : ∀ s, W 0 s → P s)
    (hW : ∀ m s e t, W (m + 1) s → step s e = some t → P t ∨ W (if tick e then m else m + 1) t)
    {m : ℕ} {s t : σ} {events : List ε} (hs : P s ∨ W m s) (h : run step s events = some t)
    (hm : m ≤ events.countP tick) : P t := by
  induction events generalizing s m with
  | nil =>
    cases h
    rw [List.countP_nil, Nat.le_zero] at hm
    subst hm
    exact hs.elim id (hzero t)
  | cons e events ih =>
    obtain ⟨u, hu, hrest⟩ := run_cons_eq_some_iff.mp h
    rcases hs with hs | hs
    · exact ih (m := 0) (.inl (hP s e u hs hu)) hrest (Nat.zero_le _)
    · cases m with
      | zero => exact ih (m := 0) (.inl (hP s e u (hzero s hs) hu)) hrest (Nat.zero_le _)
      | succ m =>
        apply ih (hW m s e u hs hu) hrest
        rw [List.countP_cons] at hm
        split_ifs at hm ⊢ <;> omega

/-- The variant rule: a run has no more events of a kind that lowers a measure than the measure
allows. -/
theorem countP_add_le {I : σ → Prop} {μ : σ → ℕ} (own : ε → Bool)
    (hstep : ∀ s e t, I s → step s e = some t → I t ∧ μ t + (if own e then 1 else 0) ≤ μ s)
    {s t : σ} {events : List ε} (hs : I s) (h : run step s events = some t) :
    I t ∧ μ t + events.countP own ≤ μ s := by
  induction events generalizing s with
  | nil =>
    cases h
    exact ⟨hs, le_rfl⟩
  | cons e events ih =>
    obtain ⟨u, hu, hrest⟩ := run_cons_eq_some_iff.mp h
    obtain ⟨hu', hle⟩ := hstep s e u hs hu
    obtain ⟨ht, hrun⟩ := ih hu' hrest
    rw [List.countP_cons]
    exact ⟨ht, by omega⟩

end ComputerMonitor.Run
