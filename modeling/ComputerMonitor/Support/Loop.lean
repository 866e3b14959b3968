import Mathlib

/-! Loops given by a step function: an iteration either goes on in a new state or leaves the loop
with a result.  `Returns` is the meaning of a loop that may run forever; `run` computes it with
enough fuel. -/

namespace ComputerMonitor.Loop

variable {σ ρ : Type*} {step : σ → σ ⊕ ρ}

def run (step : σ → σ ⊕ ρ) : ℕ → σ → Option ρ
  | 0, _ => none
  | n + 1, s =>
    match step s with
    | .inl t => run step n t
    | .inr r => some r

/-- The loop started in `s` ends with `r`. -/
inductive Returns (step : σ → σ ⊕ ρ) : σ → ρ → Prop
  | exit {s r} : step s = .inr r → Returns step s r
  | next {s t r} : step s = .inl t → Returns step t r → Returns step s r

theorem Returns.unique {s : σ} {r r' : ρ} (h : Returns step s r) (h' : Returns step s r') :
    r = r' := by
  induction h with
  | exit hs =>
    cases h' with
    | exit hs' => simpa [hs] using hs'
    | next hs' _ => simp [hs] at hs'
  | next hs _ ih =>
    cases h' with
    | exit hs' => simp [hs] at hs'
    | next hs' h' =>
      rw [hs, Sum.inl.injEq] at hs'
      subst hs'
      exact ih h'

/-- Some rounds of the loop lead from one state to another. -/
def Goes (step : σ → σ ⊕ ρ) : σ → σ → Prop := Relation.ReflTransGen fun s t => step s = .inl t

theorem Goes.refl (s : σ) : Goes step s s := Relation.ReflTransGen.refl

theorem Goes.head {s t u : σ} (h : step s = .inl t) (h' : Goes step t u) : Goes step s u :=
  Relation.ReflTransGen.head h h'

theorem Goes.trans {s t u : σ} (h : Goes step s t) (h' : Goes step t u) : Goes step s u :=
  Relation.ReflTransGen.trans h h'

theorem Goes.returns {s t : σ} {r : ρ} (h : Goes step s t) (hr : Returns step t r) :
    Returns step s r := by
  induction h using Relation.ReflTransGen.head_induction_on with
  | refl => exact hr
  | head hs _ ih => exact .next hs ih

/-- A loop that ends does so in a state it reaches. -/
theorem Returns.exists_goes {s : σ} {r : ρ} (h : Returns step s r) :
    ∃ t, Goes step s t ∧ step t = .inr r := by
  induction h with
  | exit hs => exact ⟨_, .refl _, hs⟩
  | next hs _ ih =>
    obtain ⟨t, hgoes, hexit⟩ := ih
    exact ⟨t, .head hs hgoes, hexit⟩

/-- What holds at the start and is kept by every iteration holds of every state that is reached. -/
theorem Goes.invariant (I : σ → Prop) {s t : σ} (h : Goes step s t) (h0 : I s)
    (hnext : ∀ s t, I s → step s = .inl t → I t) : I t := by
  induction h with
  | refl => exact h0
  | tail _ hstep ih => exact hnext _ _ ih hstep

theorem returns_of_run {n : ℕ} {s : σ} {r : ρ} (h : run step n s = some r) :
    Returns step s r := by
  induction n generalizing s with
  | zero => cases h
  | succ n ih =>
    rw [run] at h
    split at h
    · exact .next ‹_› (ih h)
    · exact .exit (by simp_all)

/-- The invariant rule: what holds at the start and is kept by every iteration holds where the loop
is left. -/
theorem Returns.invariant (I : σ → Prop) {Q : ρ → Prop} {s : σ} {r : ρ} (h : Returns step s r)
    (h0 : I s) (hnext : ∀ s t, I s → step s = .inl t → I t)
    (hexit : ∀ s r, I s → step s = .inr r → Q r) : Q r := by
  induction h with
  | exit hs => exact hexit _ _ h0 hs
  | next hs _ ih => exact ih (hnext _ _ h0 hs)

/-- The variant rule: under an invariant, a loop whose measure shrinks in every iteration ends, and
any fuel above the measure computes its result. -/
theorem exists_run_of_variant (I : σ → Prop) (μ : σ → ℕ)
    (hnext : ∀ s t, I s → step s = .inl t → I t ∧ μ t < μ s) {n : ℕ} {s : σ} (h0 : I s)
    (hn : μ s < n) : ∃ r, run step n s = some r := by
  induction n generalizing s with
  | zero => omega
  | succ n ih =>
    rw [run]
    split
    · obtain ⟨hI, hμ⟩ := hnext _ _ h0 ‹_›
      exact ih hI (by omega)
    · exact ⟨_, rfl⟩

/-- The loop started in `s` ends after finitely many iterations. -/
def Ends (step : σ → σ ⊕ ρ) (s : σ) : Prop := ∃ r, Returns step s r

theorem ends_of_variant (I : σ → Prop) (μ : σ → ℕ)
    (hnext : ∀ s t, I s → step s = .inl t → I t ∧ μ t < μ s) {s : σ} (h0 : I s) : Ends step s := by
  obtain ⟨r, hr⟩ := exists_run_of_variant I μ hnext h0 (Nat.lt_succ_self _)
  exact ⟨r, returns_of_run hr⟩

theorem run_eq_some_iff (I : σ → Prop) (μ : σ → ℕ)
    (hnext : ∀ s t, I s → step s = .inl t → I t ∧ μ t < μ s) {n : ℕ} {s : σ} {r : ρ} (h0 : I s)
    (hn : μ s < n) : run step n s = some r ↔ Returns step s r := by
  constructor
  · exact returns_of_run
  · intro h
    obtain ⟨r', hr'⟩ := exists_run_of_variant I μ hnext h0 hn
    rw [hr', h.unique (returns_of_run hr')]

/-- The rule for two runs of one loop: from related states they go on in step, and are left with the
same result. -/
theorem exists_returns_of_agree (R : σ → σ → Prop) (Q : ρ → Prop) (μ : σ → ℕ)
    (hnext : ∀ s s', R s s' → (∃ r, Q r ∧ step s = .inr r ∧ step s' = .inr r) ∨
      ∃ t t', step s = .inl t ∧ step s' = .inl t' ∧ R t t' ∧ μ t < μ s) {s s' : σ} (h : R s s') :
    ∃ r, Q r ∧ Returns step s r ∧ Returns step s' r := by
  induction hn : μ s using Nat.strong_induction_on generalizing s s' with
  | h n ih =>
    rcases hnext s s' h with ⟨r, hr, hs, hs'⟩ | ⟨t, t', hs, hs', ht, hlt⟩
    · exact ⟨r, hr, .exit hs, .exit hs'⟩
    · obtain ⟨r, hr, hreturns, hreturns'⟩ := ih (μ t) (hn ▸ hlt) ht rfl
      exact ⟨r, hr, .next hs hreturns, .next hs' hreturns'⟩

end ComputerMonitor.Loop
