import ComputerMonitor.Server.Atomic

/-! Every run of the service is one of the network: the clients cannot tell them apart. -/

namespace ComputerMonitor

open Bytes

namespace Server

variable {κ : Type*} [DecidableEq κ]

/-- What a client that waits for it has of an answer. -/
def held : ClientCall → Stage → List Bytes
  | .wait, .answered data => [data]
  | _, _ => []

/-- The network with as little under way as can be: requests are on the wire until they are
answered, and the answers are with the clients that wait for them. -/
structure Realises (spec : κ → ClientSpec) (a : Atomic κ) (n : Net κ) : Prop where
  monitor : n.server.monitor = a.desk
  serverCall : n.server.call = .recv
  socket : n.server.socket = ⟨.ready, [], []⟩
  call : ∀ k, (n.clients k).call = (a.clients k).call
  requestNum : ∀ k, (n.clients k).requestNum = (a.clients k).requestNum
  nodup : (n.wire.map Request.sender).Nodup
  wire : ∀ r, r ∈ n.wire ↔
    (a.clients r.sender).stage = .asked ∧ r.first = (spec r.sender).text ∧ r.more = []
  asked : ∀ k, (a.clients k).stage = .asked →
    (a.clients k).call = .wait ∨ (a.clients k).call = .closed
  inbox : ∀ k, (n.clients k).inbox = held (a.clients k).call (a.clients k).stage

variable {fmt : Json.FloatFormat} {spec : κ → ClientSpec} {n n' : Net κ} {a a' : Atomic κ}

omit [DecidableEq κ] in
theorem realises_start (spec : κ → ClientSpec) (desk : Desk) :
    Realises spec (Atomic.start desk) (Net.start desk) := by
  refine ⟨rfl, rfl, rfl, fun _ => rfl, fun _ => rfl, List.nodup_nil, ?_, ?_, fun _ => rfl⟩
  · simp [Net.start, Atomic.start]
  · simp [Atomic.start]

omit [DecidableEq κ] in
theorem Realises.notMem_wire (hr : Realises spec a n) {k : κ}
    (h : (a.clients k).stage ≠ .asked) : k ∉ n.wire.map Request.sender := by
  intro hmem
  obtain ⟨r, hwire, rfl⟩ := List.mem_map.mp hmem
  exact h ((hr.wire r).mp hwire).1

theorem realises_send {k : κ} (hr : Realises spec a n)
    (h : Atomic.step fmt spec a (.send k) = some a') :
    ∃ n', netStep fmt spec n (.send k) = some n' ∧ Realises spec a' n' := by
  rw [Atomic.step] at h
  split at h <;> cases h
  rename_i hcall
  have hidle : (a.clients k).stage ≠ .asked := fun hasked => by
    simpa [hcall] using hr.asked k hasked
  have hsend : (n.clients k).send (spec k).text = some { n.clients k with
      call := .wait, requestNum := (n.clients k).requestNum + 1,
      history := (n.clients k).history ++ [.sent (spec k).text] } := by
    simp only [Client.send, hr.call, hcall]
  refine ⟨_, Option.map_eq_some_iff.mpr ⟨_, hsend, rfl⟩, hr.monitor, hr.serverCall, hr.socket, ?_,
    ?_, ?_, ?_, ?_, ?_⟩
  · exact forall_setClient (P := fun b c => c.call = b.call) hr.call rfl
  · exact forall_setClient (P := fun b c => c.requestNum = b.requestNum) hr.requestNum
      (by simp [hr.requestNum])
  · simp only [Net.setClient, Net.setWire, List.map_append, List.map_singleton]
    exact hr.nodup.append (List.nodup_singleton k) (by simpa using hr.notMem_wire hidle)
  · intro r
    simp only [Net.setClient, Net.setWire, List.mem_append, List.mem_singleton]
    rcases eq_or_ne r.sender k with hk | hk
    · obtain ⟨sender, first, more⟩ := r
      obtain rfl : sender = k := hk
      have hnot : (⟨sender, first, more⟩ : Request κ) ∉ n.wire := fun hmem =>
        hr.notMem_wire hidle (List.mem_map_of_mem hmem)
      simp [hnot]
    · rw [Atomic.clients_setClient_of_ne hk, ← hr.wire]
      simp only [or_iff_left_iff_imp]
      rintro rfl
      exact absurd rfl hk
  · exact Atomic.forall_setClient
      (P := fun _ b => b.stage = .asked → b.call = .wait ∨ b.call = .closed) hr.asked (by simp)
  · exact forall_setClient (P := fun b c => c.inbox = held b.call b.stage) hr.inbox
      (by simp [hr.inbox, hcall, held])

theorem realises_recv {k : κ} (hr : Realises spec a n)
    (h : Atomic.step fmt spec a (.recv k) = some a') :
    ∃ n', netStep fmt spec n (.recv k) = some n' ∧
      netSee spec n (.recv k) = Atomic.see spec a (.recv k) ∧ Realises spec a' n' := by
  rw [Atomic.step] at h
  split at h <;> cases h
  rename_i data hcall hstage
  have hinbox : (n.clients k).inbox = [data] := by rw [hr.inbox, hcall, hstage, held]
  have hrecv : (n.clients k).recv (spec k).kind.requests = some { n.clients k with
      call := if (n.clients k).requestNum < (spec k).kind.requests then .send else .done
      inbox := []
      history := (n.clients k).history ++ [.took data] } := by
    simp only [Client.recv, hr.call, hcall, hinbox]
  refine ⟨_, Option.map_eq_some_iff.mpr ⟨_, hrecv, rfl⟩, ?_, hr.monitor, hr.serverCall, hr.socket,
    ?_, ?_, hr.nodup, ?_, ?_, ?_⟩
  · simp only [netSee, hinbox, Atomic.see, hstage]
  · exact forall_setClient (P := fun b c => c.call = b.call) hr.call (by simp [hr.requestNum])
  · exact forall_setClient (P := fun b c => c.requestNum = b.requestNum) hr.requestNum
      (hr.requestNum k)
  · intro r
    refine (hr.wire r).trans ?_
    rcases eq_or_ne r.sender k with hk | hk
    · simp [hk, hstage]
    · rw [Atomic.clients_setClient_of_ne hk]
  · exact Atomic.forall_setClient
      (P := fun _ b => b.stage = .asked → b.call = .wait ∨ b.call = .closed) hr.asked (by simp)
  · refine forall_setClient (P := fun b c => c.inbox = held b.call b.stage) hr.inbox ?_
    split_ifs <;> rfl

theorem realises_timeout {k : κ} (hr : Realises spec a n)
    (h : Atomic.step fmt spec a (.timeout k) = some a') :
    ∃ n', netStep fmt spec n (.timeout k) = some n' ∧ Realises spec a' n' := by
  rw [Atomic.step] at h
  split at h <;> cases h
  rename_i hcall hkind
  have htimeout : (n.clients k).timeout (spec k).kind = some { n.clients k with
      call := .closed, inbox := [], history := (n.clients k).history ++ [.timedOut] } := by
    simp only [Client.timeout, hr.call, hcall, hkind]
  refine ⟨_, Option.map_eq_some_iff.mpr ⟨_, htimeout, rfl⟩, hr.monitor, hr.serverCall, hr.socket,
    ?_, ?_, hr.nodup, ?_, ?_, ?_⟩
  · exact forall_setClient (P := fun b c => c.call = b.call) hr.call rfl
  · exact forall_setClient (P := fun b c => c.requestNum = b.requestNum) hr.requestNum
      (by simp [hr.requestNum])
  · intro r
    refine (hr.wire r).trans ?_
    rcases eq_or_ne r.sender k with hk | hk
    · simp [hk]
    · rw [Atomic.clients_setClient_of_ne hk]
  · exact Atomic.forall_setClient
      (P := fun _ b => b.stage = .asked → b.call = .wait ∨ b.call = .closed) hr.asked (by simp)
  · exact forall_setClient (P := fun b c => c.inbox = held b.call b.stage) hr.inbox rfl

/-- The request comes in, two rounds of the server answer it, and the answer is delivered. -/
theorem run_serve (hr : Realises spec a n) {k : κ} {data : Bytes} {desk : Desk} {i : ℕ}
    (hget : n.wire[i]? = some ⟨k, (spec k).text, []⟩)
    (ha : answer (reply fmt) (spec k).text a.desk = some (data, desk)) :
    Run.run (netStep fmt spec) n [.arrive i, .serverRound, .serverRound, .deliver 0] =
      some (((n.setWire (n.wire.eraseIdx i)).setServer ⟨⟨.ready, [], []⟩, desk, .recv,
        n.server.log ++ [.recv (spec k).text, .send data]⟩).setClient k
          (((n.clients k).note data).deliver data)) := by
  simp [Run.run, netStep, hget, Net.serverRound, step, Net.enqueue, Net.setWire, hr.serverCall,
    hr.socket, Rep.socket, Rep.recv, hr.monitor, ha, RepPhase.after, Net.setServer, Rep.send,
    Net.setClient, Net.setOutgoing]

/-- A client that waits has the answer then, and a closed one does not. -/
theorem deliver_note {c : Client} (data : Bytes) (hc : c.call = .wait ∨ c.call = .closed) :
    ((c.note data).deliver data).call = c.call ∧
      ((c.note data).deliver data).requestNum = c.requestNum ∧
      (c.inbox = [] → ((c.note data).deliver data).inbox = held c.call (.answered data)) := by
  rcases hc with hc | hc <;> simp [Client.note, Client.deliver, hc, held]

theorem realises_serve {k : κ} (hr : Realises spec a n)
    (h : Atomic.step fmt spec a (.serve k) = some a') :
    ∃ i n', Run.run (netStep fmt spec) n [.arrive i, .serverRound, .serverRound, .deliver 0] =
      some n' ∧ Realises spec a' n' := by
  rw [Atomic.step] at h
  split at h
  swap
  · cases h
  rename_i hasked
  obtain ⟨⟨data, desk⟩, ha, rfl⟩ := Option.map_eq_some_iff.mp h
  have hmem : (⟨k, (spec k).text, []⟩ : Request κ) ∈ n.wire := (hr.wire _).mpr ⟨hasked, rfl, rfl⟩
  obtain ⟨i, hget⟩ := List.mem_iff_getElem?.mp hmem
  have hperm := perm_eraseIdx hget
  have hnodup := (hperm.map Request.sender).nodup_iff.mp hr.nodup
  rw [List.map_cons, List.nodup_cons] at hnodup
  have hcall : (n.clients k).call = .wait ∨ (n.clients k).call = .closed := by
    rw [hr.call]
    exact hr.asked k hasked
  have hinbox : (n.clients k).inbox = [] := by
    rw [hr.inbox, hasked]
    cases (a.clients k).call <;> rfl
  obtain ⟨hcall', hnum', hinbox'⟩ := deliver_note data hcall
  refine ⟨i, _, run_serve hr hget ha, rfl, rfl, rfl, ?_, ?_, hnodup.2, ?_, ?_, ?_⟩
  · exact forall_setClient (P := fun b c => c.call = b.call) hr.call (hcall'.trans (hr.call k))
  · exact forall_setClient (P := fun b c => c.requestNum = b.requestNum) hr.requestNum
      (hnum'.trans (hr.requestNum k))
  · intro r
    simp only [Net.setClient, Net.setServer, Net.setWire]
    rcases eq_or_ne r.sender k with hk | hk
    · have hnot : r ∉ n.wire.eraseIdx i := fun hmem =>
        hnodup.1 (List.mem_map.mpr ⟨r, hmem, hk⟩)
      simp [hnot, hk]
    · rw [Atomic.clients_setClient_of_ne hk, ← hr.wire, hperm.mem_iff, List.mem_cons,
        or_iff_right]
      rintro rfl
      exact hk rfl
  · exact Atomic.forall_setClient
      (P := fun _ b => b.stage = .asked → b.call = .wait ∨ b.call = .closed) hr.asked (by simp)
  · refine forall_setClient (P := fun b c => c.inbox = held b.call b.stage) hr.inbox ?_
    rw [hinbox' hinbox, hr.call]

theorem simulates_net (fmt : Json.FloatFormat) (spec : κ → ClientSpec) :
    Run.Simulates (Atomic.step fmt spec) (Atomic.see spec) (netStep fmt spec) (netSee spec)
      (Realises spec) := by
  intro a n e a' hr h
  cases e with
  | send k =>
    obtain ⟨n', hn', hr'⟩ := realises_send hr h
    exact ⟨[.send k], n', Run.run_singleton.trans hn', Run.trace_singleton n _, hr'⟩
  | serve k =>
    obtain ⟨i, n', hn', hr'⟩ := realises_serve hr h
    refine ⟨_, n', hn', ?_, hr'⟩
    apply Run.trace_eq_nil
    simp [netSee]
  | recv k =>
    obtain ⟨n', hn', hsee, hr'⟩ := realises_recv hr h
    exact ⟨[.recv k], n', Run.run_singleton.trans hn', (Run.trace_singleton n _).trans hsee, hr'⟩
  | timeout k =>
    obtain ⟨n', hn', hr'⟩ := realises_timeout hr h
    exact ⟨[.timeout k], n', Run.run_singleton.trans hn', Run.trace_singleton n _, hr'⟩

/-- What clients can see over a network that delays, reorders and loses messages is what they can
see of a service that answers each request in one step, and nothing else. -/
theorem netTrace_iff (fmt : Json.FloatFormat) (spec : κ → ClientSpec) (desk : Desk)
    (seen : List (κ × ClientEvent)) :
    (∃ events n, netRun fmt spec desk events = some n ∧ netTrace fmt spec desk events = seen) ↔
      ∃ events a, Atomic.run fmt spec desk events = some a ∧
        Atomic.trace fmt spec desk events = seen := by
  constructor
  · rintro ⟨events, n, hn, rfl⟩
    obtain ⟨events', a, ha, htrace, -⟩ := exists_atomic_run hn
    exact ⟨events', a, ha, htrace⟩
  · rintro ⟨events, a, ha, rfl⟩
    obtain ⟨events', n, hn, htrace, -⟩ :=
      (simulates_net fmt spec).exists_run (realises_start spec desk) ha
    exact ⟨events', n, hn, htrace⟩

end Server

end ComputerMonitor
