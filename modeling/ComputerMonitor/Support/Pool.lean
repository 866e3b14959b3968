import ComputerMonitor.Support.Run

/-! A growing pool of objects that take steps of their own, one at a time. -/

namespace ComputerMonitor.Pool

inductive Event (κ ε : Type*)
  | create (kind : κ)
  | act (i : ℕ) (e : ε)

variable {κ σ ε : Type*} {new : κ → σ} {act : ℕ → σ → ε → Option σ}

/-- A new object gets the next number; the others keep theirs. -/
def step (new : κ → σ) (act : ℕ → σ → ε → Option σ) (s : List σ) :
    Event κ ε → Option (List σ)
  | .create kind => some (s ++ [new kind])
  | .act i e => s[i]?.bind fun o => (act i o e).map fun o' => s.set i o'

/-- `C`, where it is an object of the pool that takes the step. -/
def Each (C : σ → ε → Prop) (s : List σ) : Event κ ε → Prop
  | .create _ => True
  | .act i e => ∀ o, s[i]? = some o → C o e

theorem each_act_iff {C : σ → ε → Prop} {s : List σ} {i : ℕ} {o : σ} {e : ε}
    (h : s[i]? = some o) : Each (κ := κ) C s (.act i e) ↔ C o e := by
  simp [Each, h]

theorem getElem?_set_of_some {s : List σ} {i : ℕ} {o : σ} (h : s[i]? = some o) (o' : σ) :
    (s.set i o')[i]? = some o' := by
  simp [(List.getElem?_eq_some_iff.mp h).1]

theorem step_act_eq_some_iff {s t : List σ} {i : ℕ} {e : ε} :
    step new act s (.act i e) = some t ↔
      ∃ o o', s[i]? = some o ∧ act i o e = some o' ∧ t = s.set i o' := by
  simp only [step, Option.bind_eq_some_iff, Option.map_eq_some_iff]
  grind

/-- The invariant rule: what new objects have and no step of an object under `C` breaks, all objects
have. -/
theorem forall_of_step {I : σ → Prop} {C : σ → ε → Prop} (hnew : ∀ kind, I (new kind))
    (hact : ∀ i o e o', I o → C o e → act i o e = some o' → I o') {s t : List σ}
    {e : Event κ ε} (hs : ∀ o ∈ s, I o) (hC : Each C s e) (h : step new act s e = some t) :
    ∀ o ∈ t, I o := by
  cases e with
  | create kind =>
    cases h
    intro o ho
    rcases List.mem_append.mp ho with ho | ho
    · exact hs o ho
    · rw [List.mem_singleton.mp ho]
      exact hnew kind
  | act i e =>
    obtain ⟨o, o', hget, hstep, rfl⟩ := step_act_eq_some_iff.mp h
    intro p hp
    rcases List.mem_or_eq_of_mem_set hp with hp | rfl
    · exact hs p hp
    · exact hact i o e p (hs o (List.mem_of_getElem? hget)) (hC o hget) hstep

/-- Under such an invariant, one condition on the steps of objects follows from another. -/
theorem along_of_invariant {I : σ → Prop} {C D : σ → ε → Prop} (hnew : ∀ kind, I (new kind))
    (hact : ∀ i o e o', I o → C o e → act i o e = some o' → I o')
    (h : ∀ o e, I o → C o e → D o e) {s : List σ} {events : List (Event κ ε)}
    (hs : ∀ o ∈ s, I o) (hC : Run.Along (step new act) (Each C) s events) :
    Run.Along (step new act) (Each D) s events := by
  apply hC.of_invariant (I := fun s => ∀ o ∈ s, I o) _ _ hs
  · intro s e t hs hC hstep
    exact forall_of_step hnew hact hs hC hstep
  · intro s e hs hC
    cases e with
    | create kind => trivial
    | act i e =>
      intro o hget
      exact h o e (hs o (List.mem_of_getElem? hget)) (hC o hget)

/-- An object keeps what none of its own steps takes from it. -/
theorem exists_of_step {P : σ → Prop} {D : σ → ε → Prop}
    (hact : ∀ i o e o', P o → D o e → act i o e = some o' → P o') {s t : List σ}
    {e : Event κ ε} {i : ℕ} {o : σ} (hget : s[i]? = some o) (hP : P o) (hD : Each D s e)
    (h : step new act s e = some t) : ∃ o', t[i]? = some o' ∧ P o' := by
  cases e with
  | create kind =>
    cases h
    refine ⟨o, ?_, hP⟩
    rw [List.getElem?_append_left (List.getElem?_eq_some_iff.mp hget).1, hget]
  | act j e =>
    obtain ⟨p, p', hgetp, hstep, rfl⟩ := step_act_eq_some_iff.mp h
    rcases eq_or_ne j i with rfl | hne
    · rw [hget, Option.some.injEq] at hgetp
      subst hgetp
      exact ⟨p', getElem?_set_of_some hget p', hact j o e p' hP (hD o hget) hstep⟩
    · exact ⟨o, by rw [List.getElem?_set_ne hne, hget], hP⟩

theorem exists_of_run {P : σ → Prop} {D : σ → ε → Prop}
    (hact : ∀ i o e o', P o → D o e → act i o e = some o' → P o') {s t : List σ}
    {events : List (Event κ ε)} {i : ℕ} {o : σ} (hget : s[i]? = some o) (hP : P o)
    (hD : Run.Along (step new act) (Each D) s events)
    (h : Run.run (step new act) s events = some t) : ∃ o', t[i]? = some o' ∧ P o' := by
  induction events generalizing s o with
  | nil =>
    cases h
    exact ⟨o, hget, hP⟩
  | cons e events ih =>
    obtain ⟨u, hu, hrest⟩ := Run.run_cons_eq_some_iff.mp h
    obtain ⟨o', hget', hP'⟩ := exists_of_step hact hget hP hD.1 hu
    exact ih hget' hP' (hD.2 u hu) hrest

/-- If a step outside `C` leaves an object with something that it keeps, a run that has not been
under `C` all along ends with such an object. -/
theorem exists_of_not_along {P : σ → Prop} {C D : σ → ε → Prop}
    (hbreak : ∀ i o e o', ¬C o e → act i o e = some o' → P o')
    (hact : ∀ i o e o', P o → D o e → act i o e = some o' → P o') {s t : List σ}
    {events : List (Event κ ε)} (h : Run.run (step new act) s events = some t)
    (hD : Run.Along (step new act) (Each D) s events)
    (hC : ¬Run.Along (step new act) (Each C) s events) :
    ∃ (i : ℕ) (o : σ), t[i]? = some o ∧ P o := by
  induction events generalizing s with
  | nil => exact absurd trivial hC
  | cons e events ih =>
    obtain ⟨u, hu, hrest⟩ := Run.run_cons_eq_some_iff.mp h
    by_cases hCe : Each C s e
    · rw [Run.along_cons_iff hu, and_iff_right hCe] at hC
      exact ih hrest (hD.2 u hu) hC
    · cases e with
      | create kind => exact absurd trivial hCe
      | act i e =>
        obtain ⟨o, o', hget, hstep, rfl⟩ := step_act_eq_some_iff.mp hu
        rw [each_act_iff hget] at hCe
        have hbroken := hbreak i o e o' hCe hstep
        obtain ⟨p, hp, hP⟩ :=
          exists_of_run hact (getElem?_set_of_some hget o') hbroken (hD.2 _ hu) hrest
        exact ⟨i, p, hp, hP⟩

/-- Steps of one object alone that lead it to a step outside `D`. -/
theorem not_along_map_act {D : σ → ε → Prop} {s : List σ} {i : ℕ} {o o' : σ} {own : List ε}
    {e : ε} (hget : s[i]? = some o) (hown : Run.run (act i) o own = some o') (hD : ¬D o' e) :
    ¬Run.Along (step new act) (Each D) s ((own ++ [e]).map (.act i)) := by
  intro h
  induction own generalizing s o with
  | nil =>
    cases hown
    exact hD (h.1 _ hget)
  | cons e own ih =>
    obtain ⟨p, hp, hrest⟩ := Run.run_cons_eq_some_iff.mp hown
    have hstep : step new act s (.act i e) = some (s.set i p) :=
      step_act_eq_some_iff.mpr ⟨o, p, hget, hp, rfl⟩
    exact ih (getElem?_set_of_some hget p) hrest (h.2 _ hstep)

/-- A step of the given object, of one of the given kinds. -/
def Event.isOwn (i : ℕ) (own : ε → Bool) : Event κ ε → Bool
  | .create _ => false
  | .act j e => j = i && own e

/-- The measure rule: what each step of some kinds lowers by one and no other step of the object
changes tells how many of these it takes in a run. -/
theorem measure_of_run {P : σ → Prop} {μ : σ → ℕ} (own : ε → Bool)
    (hact : ∀ i o e o', P o → act i o e = some o' →
      P o' ∧ μ o = μ o' + if own e then 1 else 0) {s t : List σ} {events : List (Event κ ε)}
    {i : ℕ} {o : σ} (hget : s[i]? = some o) (hP : P o)
    (h : Run.run (step new act) s events = some t) :
    ∃ o', t[i]? = some o' ∧ P o' ∧ μ o = μ o' + events.countP (Event.isOwn i own) := by
  induction events generalizing s o with
  | nil =>
    cases h
    exact ⟨o, hget, hP, rfl⟩
  | cons e events ih =>
    obtain ⟨u, hu, hrest⟩ := Run.run_cons_eq_some_iff.mp h
    have hnext : ∃ p, u[i]? = some p ∧ P p ∧
        μ o = μ p + if Event.isOwn i own e then 1 else 0 := by
      cases e with
      | create kind =>
        cases hu
        refine ⟨o, ?_, hP, rfl⟩
        rw [List.getElem?_append_left (List.getElem?_eq_some_iff.mp hget).1, hget]
      | act j e =>
        obtain ⟨p, p', hgetp, hstep, rfl⟩ := step_act_eq_some_iff.mp hu
        rcases eq_or_ne j i with rfl | hne
        · rw [hget, Option.some.injEq] at hgetp
          subst hgetp
          obtain ⟨hP', hμ⟩ := hact j o e p' hP hstep
          exact ⟨p', getElem?_set_of_some hget p', hP', by simpa [Event.isOwn] using hμ⟩
        · exact ⟨o, by rw [List.getElem?_set_ne hne, hget], hP, by simp [Event.isOwn, hne]⟩
    obtain ⟨p, hgetp, hPp, hμ⟩ := hnext
    obtain ⟨o', hget', hP', hμ'⟩ := ih hgetp hPp hrest
    refine ⟨o', hget', hP', ?_⟩
    rw [List.countP_cons]
    omega

end ComputerMonitor.Pool
