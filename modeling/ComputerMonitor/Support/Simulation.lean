import ComputerMonitor.Support.Run

/-! Forward simulations between systems of whose steps a part can be seen from outside. -/

namespace ComputerMonitor.Run

variable {σ ε τ δ ω : Type*} {step : σ → ε → Option σ} {see : σ → ε → List ω}

theorem run_append_eq_some_iff {s u : σ} {events more : List ε} :
    run step s (events ++ more) = some u ↔
      ∃ t, run step s events = some t ∧ run step t more = some u := by
  rw [run, List.foldlM_append]
  exact Option.bind_eq_some_iff

theorem run_singleton {s : σ} {e : ε} : run step s [e] = step s e := by
  cases h : step s e <;> simp [run, h]

/-- What is seen of a run that starts in `s`. -/
def trace (step : σ → ε → Option σ) (see : σ → ε → List ω) (s : σ) : List ε → List ω
  | [] => []
  | e :: events =>
    see s e ++
      match step s e with
      | some t => trace step see t events
      | none => []

@[simp] theorem trace_nil (s : σ) : trace step see s [] = [] := rfl

theorem trace_cons {s t : σ} {e : ε} (h : step s e = some t) (events : List ε) :
    trace step see s (e :: events) = see s e ++ trace step see t events := by
  rw [trace, h]

theorem trace_singleton (s : σ) (e : ε) : trace step see s [e] = see s e := by
  rw [trace]
  cases step s e <;> simp

theorem trace_append {s t : σ} {events : List ε} (h : run step s events = some t)
    (more : List ε) :
    trace step see s (events ++ more) = trace step see s events ++ trace step see t more := by
  induction events generalizing s with
  | nil =>
    cases h
    rfl
  | cons e events ih =>
    obtain ⟨u, hu, hrest⟩ := run_cons_eq_some_iff.mp h
    rw [List.cons_append, trace_cons hu, trace_cons hu, ih hrest, List.append_assoc]

theorem trace_eq_nil {events : List ε} (h : ∀ e ∈ events, ∀ s, see s e = []) (s : σ) :
    trace step see s events = [] := by
  induction events generalizing s with
  | nil => rfl
  | cons e events ih =>
    rw [List.forall_mem_cons] at h
    rw [trace, h.1, List.nil_append]
    cases step s e with
    | none => rfl
    | some t => exact ih h.2 t

/-- Every step from a state related to `t` is matched by steps from `t` that look the same. -/
def Simulates (step : σ → ε → Option σ) (see : σ → ε → List ω) (step' : τ → δ → Option τ)
    (see' : τ → δ → List ω) (R : σ → τ → Prop) : Prop :=
  ∀ s t e s', R s t → step s e = some s' → ∃ events t', run step' t events = some t' ∧
    trace step' see' t events = see s e ∧ R s' t'

variable {step' : τ → δ → Option τ} {see' : τ → δ → List ω} {R : σ → τ → Prop}

/-- Steps that agree through a function make runs that agree. -/
theorem map_run {f : σ → τ} {step' : τ → ε → Option τ}
    (hstep : ∀ s e, (step s e).map f = step' (f s) e) (s : σ) (events : List ε) :
    (run step s events).map f = run step' (f s) events := by
  induction events generalizing s with
  | nil => rfl
  | cons e events ih =>
    rw [run, run, List.foldlM_cons, List.foldlM_cons, ← hstep]
    cases step s e with
    | none => rfl
    | some t => exact ih t

/-- Matching one step by at most one. -/
theorem simulates_of_step
    (h : ∀ s t e s', R s t → step s e = some s' → (see s e = [] ∧ R s' t) ∨
      ∃ d t', step' t d = some t' ∧ see' t d = see s e ∧ R s' t') :
    Simulates step see step' see' R := by
  intro s t e s' hR hstep
  rcases h s t e s' hR hstep with ⟨hsee, hR'⟩ | ⟨d, t', hd, hsee, hR'⟩
  · exact ⟨[], t, rfl, hsee.symm, hR'⟩
  · exact ⟨[d], t', run_singleton.trans hd, (trace_singleton t d).trans hsee, hR'⟩

/-- What can be seen of a run can be seen of a run of the system that simulates it. -/
theorem Simulates.exists_run (h : Simulates step see step' see' R) {s s' : σ} {t : τ}
    {events : List ε} (hR : R s t) (hrun : run step s events = some s') :
    ∃ events' t', run step' t events' = some t' ∧
      trace step' see' t events' = trace step see s events ∧ R s' t' := by
  induction events generalizing s t with
  | nil =>
    cases hrun
    exact ⟨[], t, rfl, rfl, hR⟩
  | cons e events ih =>
    obtain ⟨u, hu, hrest⟩ := run_cons_eq_some_iff.mp hrun
    obtain ⟨first, v, hfirst, hseen, hRuv⟩ := h s t e u hR hu
    obtain ⟨others, t', hothers, hseen', hR'⟩ := ih hRuv hrest
    refine ⟨first ++ others, t', run_append_eq_some_iff.mpr ⟨v, hfirst, hothers⟩, ?_, hR'⟩
    rw [trace_append hfirst, hseen, hseen', trace_cons hu]

end ComputerMonitor.Run
