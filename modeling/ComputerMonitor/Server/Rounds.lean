import ComputerMonitor.Server

/-! Which requests the loop gets through. -/

namespace ComputerMonitor

open Bytes

namespace Server

variable {κ σ μ : Type*}

/-- Every request is received whole and then takes one reply, in the order of the requests. -/
inductive Served : List (Request κ) → List Event → Prop
  | nil : Served [] []
  | cons {r rs log} (data : Bytes) :
      Served rs log → Served (r :: rs) (r.frames.map .recv ++ .send data :: log)

/-- The loop is about to receive the first of `rs`. -/
structure AtRecv (S : RepSocket κ σ) (s : State σ μ) (rs : List (Request κ)) : Prop where
  call : s.call = .recv
  phase : S.phase s.socket = .ready
  incoming : S.incoming s.socket = rs

section

variable {S : RepSocket κ σ} {run : Command → μ → Option (Bytes × μ)}

theorem exists_answer (hrun : ∀ c m, (run c m).isSome = true) (request : Bytes) (m : μ) :
    ∃ data m', answer run request m = some (data, m') := by
  rw [answer]
  cases dispatch request with
  | none => exact ⟨_, _, rfl⟩
  | some c =>
    obtain ⟨⟨data, m'⟩, h⟩ := Option.isSome_iff_exists.mp (hrun c m)
    exact ⟨data, m', h⟩

/-- The round that receives the first frame of a request. -/
theorem step_recv (hrun : ∀ c m, (run c m).isSome = true) {s : State σ μ} {r : Request κ}
    {rs : List (Request κ)} (h : AtRecv S s (r :: rs)) :
    ∃ t data, step S run s = .inl t ∧ t.call = .send data ∧ t.log = s.log ++ [.recv r.first] ∧
      S.phase t.socket = .after r.sender r.more ∧ S.incoming t.socket = rs := by
  obtain ⟨socket, hrecv, hphase, hincoming, -⟩ := S.recv_ready h.phase h.incoming
  obtain ⟨data, m, hanswer⟩ := exists_answer hrun r.first s.monitor
  have hstep : step S run s = .inl
      { socket, monitor := m, call := .send data, log := s.log ++ [.recv r.first] } := by
    simp only [step, h.call, hrecv, hanswer]
  exact ⟨_, data, hstep, rfl, rfl, hphase, hincoming⟩

/-- A request of a single frame is answered, and the loop is back at its `recv`. -/
theorem goes_single (hrun : ∀ c m, (run c m).isSome = true) {s : State σ μ} {r : Request κ}
    {rs : List (Request κ)} (h : AtRecv S s (r :: rs)) (hr : r.more = []) :
    ∃ t data, Loop.Goes (step S run) s t ∧ AtRecv S t rs ∧
      t.log = s.log ++ [.recv r.first, .send data] := by
  obtain ⟨t, data, hstep, hcall, hlog, hphase, hincoming⟩ := step_recv hrun h
  rw [hr, RepPhase.after] at hphase
  obtain ⟨socket, hsend, hready, hin, -⟩ := S.send_replying data hphase
  have hnext : step S run t =
      .inl { t with socket, call := .recv, log := t.log ++ [.send data] } := by
    simp only [step, hcall, hsend]
  refine ⟨_, data, .head hstep (.head hnext (.refl _)), ⟨rfl, hready, hin.trans hincoming⟩, ?_⟩
  simp [hlog]

/-- With frames left to receive, the reply to the first one cannot be sent. -/
theorem returns_exception (hrun : ∀ c m, (run c m).isSome = true) {s : State σ μ} {r : Request κ}
    {rs : List (Request κ)} (h : AtRecv S s (r :: rs)) (hr : r.more ≠ []) :
    ∃ t, Loop.Returns (step S run) s (.exception t) := by
  obtain ⟨t, data, hstep, hcall, -, hphase, -⟩ := step_recv hrun h
  obtain ⟨next, more, hmore⟩ := List.exists_cons_of_ne_nil hr
  have hsend : S.send data t.socket = none := by
    refine S.send_efsm data fun k hk => ?_
    rw [hphase, hmore, RepPhase.after] at hk
    cases hk
  refine ⟨t, .next hstep (.exit ?_)⟩
  simp only [step, hcall, hsend]

theorem returns_waiting {s : State σ μ} (h : AtRecv S s []) :
    Loop.Returns (step S run) s (.waiting s) := by
  refine .exit ?_
  simp only [step, h.call, S.recv_wait h.phase h.incoming]

/-- Requests of single frames are all answered. -/
theorem returns_of_single (hrun : ∀ c m, (run c m).isSome = true) {rs : List (Request κ)}
    (hrs : ∀ r ∈ rs, r.more = []) {s : State σ μ} (h : AtRecv S s rs) :
    ∃ t log, Loop.Returns (step S run) s (.waiting t) ∧ t.log = s.log ++ log ∧ Served rs log := by
  induction rs generalizing s with
  | nil => exact ⟨s, [], returns_waiting h, by simp, .nil⟩
  | cons r rs ih =>
    have hr : r.more = [] := hrs r (by simp)
    obtain ⟨t, data, hgoes, ht, htlog⟩ := goes_single hrun h hr
    obtain ⟨u, log, hreturns, hulog, hserved⟩ := ih (fun q hq => hrs q (by simp [hq])) ht
    refine ⟨u, _, hgoes.returns hreturns, ?_, .cons data hserved⟩
    simp [hulog, htlog, Request.frames, hr]

/-- The first request of several frames ends the loop. -/
theorem returns_of_multi (hrun : ∀ c m, (run c m).isSome = true) {rs : List (Request κ)}
    (hrs : ∃ r ∈ rs, r.more ≠ []) {s : State σ μ} (h : AtRecv S s rs) :
    ∃ t, Loop.Returns (step S run) s (.exception t) := by
  induction rs generalizing s with
  | nil => simp at hrs
  | cons r rs ih =>
    by_cases hr : r.more = []
    · obtain ⟨t, data, hgoes, ht, -⟩ := goes_single hrun h hr
      obtain ⟨u, hu⟩ := ih (by simpa [hr] using hrs) ht
      exact ⟨u, hgoes.returns hu⟩
    · exact returns_exception hrun h hr

end

theorem atRecv_start (S : RepSocket κ σ) {socket : σ} (h : S.phase socket = .ready) (monitor : μ) :
    AtRecv S (start socket monitor) (S.incoming socket) := ⟨rfl, h, rfl⟩

/-- The loop answers all requests and waits for more exactly if each of them is a single frame. -/
theorem served_iff (S : RepSocket κ σ) {run : Command → μ → Option (Bytes × μ)}
    (hrun : ∀ c m, (run c m).isSome = true) {socket : σ} (hready : S.phase socket = .ready)
    (monitor : μ) :
    (∃ t, Loop.Returns (step S run) (start socket monitor) (.waiting t) ∧
      Served (S.incoming socket) t.log) ↔ ∀ r ∈ S.incoming socket, r.more = [] := by
  have hstart := atRecv_start S hready monitor
  constructor
  · rintro ⟨t, hwait, -⟩
    by_contra hmulti
    obtain ⟨u, hexc⟩ := returns_of_multi hrun (by simpa using hmulti) hstart
    cases hwait.unique hexc
  · intro hsingle
    obtain ⟨t, log, hwait, hlog, hserved⟩ := returns_of_single hrun hsingle hstart
    refine ⟨t, hwait, ?_⟩
    rwa [hlog, start, List.nil_append]

/-- A monitor with the same text for every command. -/
def sampleRun (_ : Command) (_ : Unit) : Option (Bytes × Unit) := some (ascii "null", ())

theorem served_iff_diskIO :
    ∃ t, Loop.Returns (step (Rep.socket ℕ) sampleRun)
        (start (Rep.ofQueue [⟨0, ascii "DiskIO", []⟩, ⟨1, ascii "help", []⟩]) ()) (.waiting t) ∧
      Served [⟨0, ascii "DiskIO", []⟩, ⟨1, ascii "help", []⟩] t.log :=
  (served_iff (Rep.socket ℕ) (fun _ _ => rfl) rfl ()).mpr (by
    simp [Rep.socket, Rep.ofQueue])

/-- The command `DiskIO` with a second frame behind it ends the loop with an exception. -/
theorem not_served_multi :
    ¬∀ rs : List (Request ℕ), ∃ t, Loop.Returns (step (Rep.socket ℕ) sampleRun)
      (start (Rep.ofQueue rs) ()) (.waiting t) ∧ Served rs t.log := by
  intro h
  obtain ⟨t, hwait, -⟩ := h [⟨0, ascii "DiskIO", [ascii "x"]⟩]
  have hstart : AtRecv (Rep.socket ℕ) (start (Rep.ofQueue [⟨0, ascii "DiskIO", [ascii "x"]⟩]) ())
      [⟨0, ascii "DiskIO", [ascii "x"]⟩] := ⟨rfl, rfl, rfl⟩
  have hrun : ∀ c m, (sampleRun c m).isSome = true := fun _ _ => rfl
  obtain ⟨u, hexc⟩ := returns_of_multi hrun (by simp) hstart
  cases hwait.unique hexc

end Server

end ComputerMonitor
