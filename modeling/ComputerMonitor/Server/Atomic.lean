import ComputerMonitor.Server.Network
import ComputerMonitor.Support.Simulation

/-! The service that the clients see: requests that are answered in one step, without messages. -/

namespace ComputerMonitor

open Bytes

namespace Server

variable {κ : Type*} [DecidableEq κ]

/-- How far the last request of a client is: it has been taken or there is none, it has been made,
or it has been answered. -/
inductive Stage
  | none
  | asked
  | answered (data : Bytes)

structure AtomicClient where
  call : ClientCall
  requestNum : ℕ
  stage : Stage

/-- The monitor, the clients, and the answers that have been given, in their order. -/
structure Atomic (κ : Type*) where
  desk : Desk
  clients : κ → AtomicClient
  served : List (κ × Bytes)

inductive AtomicEvent (κ : Type*)
  | send (k : κ)
  | serve (k : κ)
  | recv (k : κ)
  | timeout (k : κ)

namespace Atomic

def start (desk : Desk) : Atomic κ := ⟨desk, fun _ => ⟨.send, 0, .none⟩, []⟩

def setClient (a : Atomic κ) (k : κ) (c : AtomicClient) : Atomic κ :=
  { a with clients := Function.update a.clients k c }

/-- A request is made where the client is about to make one, answered once, and its answer taken
once. -/
def step (fmt : Json.FloatFormat) (spec : κ → ClientSpec) (a : Atomic κ) :
    AtomicEvent κ → Option (Atomic κ)
  | .send k =>
    match (a.clients k).call with
    | .send => some (a.setClient k ⟨.wait, (a.clients k).requestNum + 1, .asked⟩)
    | _ => none
  | .serve k =>
    match (a.clients k).stage with
    | .asked => (answer (reply fmt) (spec k).text a.desk).map fun p =>
      { a.setClient k { a.clients k with stage := .answered p.1 } with
        desk := p.2, served := a.served ++ [(k, p.1)] }
    | _ => none
  | .recv k =>
    match (a.clients k).call, (a.clients k).stage with
    | .wait, .answered _ => some (a.setClient k { a.clients k with
        call := if (a.clients k).requestNum < (spec k).kind.requests then .send else .done
        stage := .none })
    | _, _ => none
  | .timeout k =>
    match (a.clients k).call, (spec k).kind with
    | .wait, .noBlockSocket => some (a.setClient k { a.clients k with call := .closed })
    | _, _ => none

/-- What the clients see. -/
def see (spec : κ → ClientSpec) (a : Atomic κ) : AtomicEvent κ → List (κ × ClientEvent)
  | .send k => [(k, .sent (spec k).text)]
  | .serve _ => []
  | .recv k =>
    match (a.clients k).stage with
    | .answered data => [(k, .took data)]
    | _ => []
  | .timeout k => [(k, .timedOut)]

def run (fmt : Json.FloatFormat) (spec : κ → ClientSpec) (desk : Desk)
    (events : List (AtomicEvent κ)) : Option (Atomic κ) :=
  Run.run (step fmt spec) (start desk) events

def trace (fmt : Json.FloatFormat) (spec : κ → ClientSpec) (desk : Desk)
    (events : List (AtomicEvent κ)) : List (κ × ClientEvent) :=
  Run.trace (step fmt spec) (see spec) (start desk) events

end Atomic

/-- Of what goes on in the network the clients see their own calls. -/
def netSee (spec : κ → ClientSpec) (n : Net κ) : NetEvent κ → List (κ × ClientEvent)
  | .send k => [(k, .sent (spec k).text)]
  | .arrive _ => []
  | .loseRequest _ => []
  | .serverRound => []
  | .deliver _ => []
  | .loseReply _ => []
  | .recv k =>
    match (n.clients k).inbox with
    | data :: _ => [(k, .took data)]
    | [] => []
  | .timeout k => [(k, .timedOut)]

def netTrace (fmt : Json.FloatFormat) (spec : κ → ClientSpec) (desk : Desk)
    (events : List (NetEvent κ)) : List (κ × ClientEvent) :=
  Run.trace (netStep fmt spec) (netSee spec) (Net.start desk) events

/-- The log of a server that has given these answers, the last of which it may be about to send. -/
structure Logged (spec : κ → ClientSpec) (served : List (κ × Bytes)) (call : Call)
    (log : List Event) : Prop where
  eq : (log ++ match call with
    | .recv => []
    | .send data => [.send data]) =
      served.flatMap fun p => [.recv (spec p.1).text, .send p.2]

/-- The network and the service are in the same state but for the messages, each of which is of
the last request of its client. -/
structure Refines (fmt : Json.FloatFormat) (spec : κ → ClientSpec) (n : Net κ) (a : Atomic κ) :
    Prop where
  inv : NetInv fmt spec n
  desk : a.desk = n.server.monitor
  call : ∀ k, (a.clients k).call = (n.clients k).call
  requestNum : ∀ k, (a.clients k).requestNum = (n.clients k).requestNum
  wire : ∀ r ∈ n.wire, (a.clients r.sender).stage = .asked
  queue : ∀ r ∈ n.server.socket.incoming, (a.clients r.sender).stage = .asked
  serving : ∀ k data, n.server.call = .send data → n.server.socket.phase = .replying k →
    (a.clients k).stage = .answered data
  outgoing : ∀ m ∈ n.server.socket.outgoing, (a.clients m.1).stage = .answered m.2
  inbox : ∀ k, ∀ data ∈ (n.clients k).inbox, (a.clients k).stage = .answered data
  logged : Logged spec a.served n.server.call n.server.log

variable {fmt : Json.FloatFormat} {spec : κ → ClientSpec} {n n' : Net κ} {a : Atomic κ}

@[simp] theorem Atomic.clients_setClient_self (k : κ) (c : AtomicClient) :
    (a.setClient k c).clients k = c := by
  simp [Atomic.setClient]

theorem Atomic.clients_setClient_of_ne {j k : κ} (h : j ≠ k) (c : AtomicClient) :
    (a.setClient k c).clients j = a.clients j := by
  simp [Atomic.setClient, h]

theorem Net.forall_setClient {P : κ → Client → Prop} (h : ∀ j, P j (n.clients j)) {k : κ}
    {c : Client} (hk : P k c) (j : κ) : P j ((n.setClient k c).clients j) := by
  rcases eq_or_ne j k with rfl | hj
  · rwa [clients_setClient_self]
  · rw [clients_setClient_of_ne _ _ hj]
    exact h j

theorem Atomic.forall_setClient {P : κ → AtomicClient → Prop} (h : ∀ j, P j (a.clients j)) {k : κ}
    {b : AtomicClient} (hk : P k b) (j : κ) : P j ((a.setClient k b).clients j) := by
  rcases eq_or_ne j k with rfl | hj
  · rwa [Atomic.clients_setClient_self]
  · rw [Atomic.clients_setClient_of_ne hj]
    exact h j

/-- What a client keeps to on both sides. -/
theorem forall_setClient {P : AtomicClient → Client → Prop}
    (h : ∀ j, P (a.clients j) (n.clients j)) {k : κ} {b : AtomicClient} {c : Client} (hk : P b c)
    (j : κ) : P ((a.setClient k b).clients j) ((n.setClient k c).clients j) := by
  rcases eq_or_ne j k with rfl | hj
  · rwa [Atomic.clients_setClient_self, clients_setClient_self]
  · rw [Atomic.clients_setClient_of_ne hj, clients_setClient_of_ne _ _ hj]
    exact h j

section

variable (fmt : Json.FloatFormat) {k : κ}

theorem Atomic.step_send (h : (a.clients k).call = .send) :
    Atomic.step fmt spec a (.send k) =
      some (a.setClient k ⟨.wait, (a.clients k).requestNum + 1, .asked⟩) := by
  simp only [Atomic.step, h]

theorem Atomic.step_serve {fmt : Json.FloatFormat} (h : (a.clients k).stage = .asked)
    {data : Bytes} {desk : Desk}
    (ha : answer (reply fmt) (spec k).text a.desk = some (data, desk)) :
    Atomic.step fmt spec a (.serve k) =
      some { a.setClient k { a.clients k with stage := .answered data } with
        desk := desk, served := a.served ++ [(k, data)] } := by
  simp only [Atomic.step, h, ha, Option.map_some]

theorem Atomic.step_recv (h : (a.clients k).call = .wait) {data : Bytes}
    (hs : (a.clients k).stage = .answered data) :
    Atomic.step fmt spec a (.recv k) = some (a.setClient k { a.clients k with
      call := if (a.clients k).requestNum < (spec k).kind.requests then .send else .done
      stage := .none }) := by
  simp only [Atomic.step, h, hs]

theorem Atomic.step_timeout (h : (a.clients k).call = .wait)
    (hkind : (spec k).kind = .noBlockSocket) :
    Atomic.step fmt spec a (.timeout k) =
      some (a.setClient k { a.clients k with call := .closed }) := by
  simp only [Atomic.step, h, hkind]

end

theorem refines_start (fmt : Json.FloatFormat) (spec : κ → ClientSpec) (desk : Desk) :
    Refines fmt spec (Net.start desk) (Atomic.start desk) where
  inv := netInv_start fmt spec desk
  desk := rfl
  call _ := rfl
  requestNum _ := rfl
  wire := by simp [Net.start]
  queue := by simp [Net.start, start, Rep.ofQueue]
  serving := by simp [Net.start, start]
  outgoing := by simp [Net.start, start, Rep.ofQueue]
  inbox := by simp [Net.start, Client.start]
  logged := ⟨rfl⟩

/-! ### The messages of one client -/

theorem ne_of_pending_eq_zero {k : κ} (h : n.pending k = 0) :
    (∀ r ∈ n.wire, r.sender ≠ k) ∧ (∀ r ∈ n.server.socket.incoming, r.sender ≠ k) ∧
      n.server.socket.phase ≠ .replying k := by
  simp only [Net.pending, Nat.add_eq_zero_iff, List.countP_eq_zero, decide_eq_true_eq] at h
  obtain ⟨⟨hwire, hqueue⟩, hserving⟩ := h
  refine ⟨hwire, hqueue, fun hphase => ?_⟩
  simp [hphase, serving] at hserving

theorem ne_of_inFlight_eq_zero {k : κ} (h : n.inFlight k = 0) :
    ∀ m ∈ n.server.socket.outgoing, m.1 ≠ k := by
  have hempty : (n.server.socket.outgoing.filter fun m => m.1 = k) = [] := by
    simpa [Net.inFlight] using h
  intro m hm
  simpa using List.filter_eq_nil_iff.mp hempty m hm

/-- A client about to send has no messages anywhere. -/
theorem NetInv.idle (hn : NetInv fmt spec n) {k : κ} (hcall : (n.clients k).call = .send) :
    n.pending k = 0 ∧ n.inFlight k = 0 ∧ (n.clients k).inbox = [] := by
  obtain ⟨hpending, hreplies⟩ := (hn.2 k).idle hcall
  obtain ⟨hflight, hinbox⟩ := add_eq_zero.mp hreplies
  exact ⟨hpending, hflight, by simpa using hinbox⟩

/-- Nor has one that takes a reply any others. -/
theorem NetInv.only (hn : NetInv fmt spec n) {k : κ} (hcall : (n.clients k).call = .wait)
    {data : Bytes} {inbox : List Bytes} (hinbox : (n.clients k).inbox = data :: inbox) :
    n.pending k = 0 ∧ n.inFlight k = 0 ∧ inbox = [] := by
  have hreplies : (n.session k).replies = data ::ₘ (n.inFlight k + (inbox : Multiset Bytes)) := by
    simp [Net.session, hinbox, ← Multiset.cons_coe]
  obtain ⟨hpending, hrest⟩ := (hn.2 k).only hcall hreplies
  obtain ⟨hflight, hinbox⟩ := add_eq_zero.mp hrest
  exact ⟨hpending, hflight, by simpa using hinbox⟩

/-- The request at the front of the queue is its client's only one. -/
theorem NetInv.front (hn : NetInv fmt spec n) {r : Request κ} {rs : List (Request κ)}
    (hin : n.server.socket.incoming = r :: rs) :
    (∀ q ∈ n.wire, q.sender ≠ r.sender) ∧ ∀ q ∈ rs, q.sender ≠ r.sender := by
  have hle : n.pending r.sender ≤ 1 := (hn.2 r.sender).pending_le
  simp only [Net.pending, hin, List.countP_cons, decide_true, if_true] at hle
  have hwire : n.wire.countP (fun q => q.sender = r.sender) = 0 := by omega
  have hqueue : rs.countP (fun q => q.sender = r.sender) = 0 := by omega
  simp only [List.countP_eq_zero, decide_eq_true_eq] at hwire hqueue
  exact ⟨hwire, hqueue⟩

/-! ### One event -/

theorem refines_send {k : κ} (hr : Refines fmt spec n a)
    (h : netStep fmt spec n (.send k) = some n') :
    ∃ a', Atomic.step fmt spec a (.send k) = some a' ∧ Refines fmt spec n' a' := by
  have hinv := netInv_netStep hr.inv h
  obtain ⟨c, hc, rfl⟩ := Option.map_eq_some_iff.mp h
  obtain ⟨hcall, rfl⟩ := Client.send_eq_some hc
  obtain ⟨hpending, hflight, hinbox⟩ := hr.inv.idle hcall
  obtain ⟨hwire, hqueue, hphase⟩ := ne_of_pending_eq_zero hpending
  have hother : ∀ {j : κ} {c : AtomicClient}, j ≠ k → (a.setClient k c).clients j = a.clients j :=
    fun hj => Atomic.clients_setClient_of_ne hj _
  refine ⟨_, Atomic.step_send fmt ((hr.call k).trans hcall), hinv, hr.desk, ?_, ?_, ?_, ?_, ?_, ?_,
    ?_, hr.logged⟩
  · exact forall_setClient (P := fun b c => b.call = c.call) hr.call rfl
  · exact forall_setClient (P := fun b c => b.requestNum = c.requestNum) hr.requestNum
      (by simp [hr.requestNum])
  · intro r hmem
    rcases List.mem_append.mp hmem with hmem | hmem
    · rw [hother (hwire r hmem)]
      exact hr.wire r hmem
    · rw [List.mem_singleton.mp hmem]
      simp
  · intro r hmem
    rw [hother (hqueue r hmem)]
    exact hr.queue r hmem
  · intro j data hsend hreplying
    rw [hother fun hj => hphase (hj ▸ hreplying)]
    exact hr.serving j data hsend hreplying
  · intro m hmem
    rw [hother (ne_of_inFlight_eq_zero hflight m hmem)]
    exact hr.outgoing m hmem
  · exact forall_setClient (P := fun b c => ∀ d ∈ c.inbox, b.stage = .answered d) hr.inbox
      (by simp [hinbox])

theorem refines_arrive {i : ℕ} (hr : Refines fmt spec n a)
    (h : netStep fmt spec n (.arrive i) = some n') : Refines fmt spec n' a := by
  have hinv := netInv_netStep hr.inv h
  obtain ⟨r, hget, rfl⟩ := Option.map_eq_some_iff.mp h
  refine ⟨hinv, hr.desk, hr.call, hr.requestNum, ?_, ?_, hr.serving, hr.outgoing, hr.inbox,
    hr.logged⟩
  · intro q hq
    exact hr.wire q (List.mem_of_mem_eraseIdx hq)
  · intro q hq
    rcases List.mem_append.mp hq with hq | hq
    · exact hr.queue q hq
    · rw [List.mem_singleton.mp hq]
      exact hr.wire r (List.mem_of_getElem? hget)

theorem refines_loseRequest {i : ℕ} (hr : Refines fmt spec n a)
    (h : netStep fmt spec n (.loseRequest i) = some n') : Refines fmt spec n' a := by
  have hinv := netInv_netStep hr.inv h
  obtain rfl := Option.some.inj h
  exact ⟨hinv, hr.desk, hr.call, hr.requestNum,
    fun q hq => hr.wire q (List.mem_of_mem_eraseIdx hq), hr.queue, hr.serving, hr.outgoing,
    hr.inbox, hr.logged⟩

theorem refines_deliver {i : ℕ} (hr : Refines fmt spec n a)
    (h : netStep fmt spec n (.deliver i) = some n') : Refines fmt spec n' a := by
  have hinv := netInv_netStep hr.inv h
  obtain ⟨⟨k, data⟩, hget, rfl⟩ := Option.map_eq_some_iff.mp h
  have hanswered := hr.outgoing _ (List.mem_of_getElem? hget)
  have hcases := Client.deliver_cases data (n.clients k)
  refine ⟨hinv, hr.desk, ?_, ?_, hr.wire, hr.queue, hr.serving,
    fun m hm => hr.outgoing m (List.mem_of_mem_eraseIdx hm), ?_, hr.logged⟩
  · refine Net.forall_setClient (P := fun j c => (a.clients j).call = c.call) hr.call ?_
    rcases hcases with hc | hc <;> simp [hc, hr.call]
  · refine Net.forall_setClient (P := fun j c => (a.clients j).requestNum = c.requestNum)
      hr.requestNum ?_
    rcases hcases with hc | hc <;> simp [hc, hr.requestNum]
  · refine Net.forall_setClient
      (P := fun j c => ∀ d ∈ c.inbox, (a.clients j).stage = .answered d) hr.inbox fun d hd => ?_
    rcases hcases with hc | hc
    · rw [hc] at hd
      rcases List.mem_append.mp hd with hd | hd
      · exact hr.inbox k d hd
      · rw [List.mem_singleton.mp hd]
        exact hanswered
    · rw [hc] at hd
      exact hr.inbox k d hd

theorem refines_loseReply {i : ℕ} (hr : Refines fmt spec n a)
    (h : netStep fmt spec n (.loseReply i) = some n') : Refines fmt spec n' a := by
  have hinv := netInv_netStep hr.inv h
  obtain rfl := Option.some.inj h
  exact ⟨hinv, hr.desk, hr.call, hr.requestNum, hr.wire, hr.queue, hr.serving,
    fun m hm => hr.outgoing m (List.mem_of_mem_eraseIdx hm), hr.inbox, hr.logged⟩

theorem refines_recv {k : κ} (hr : Refines fmt spec n a)
    (h : netStep fmt spec n (.recv k) = some n') :
    ∃ a', Atomic.step fmt spec a (.recv k) = some a' ∧
      Atomic.see spec a (.recv k) = netSee spec n (.recv k) ∧ Refines fmt spec n' a' := by
  have hinv := netInv_netStep hr.inv h
  obtain ⟨c, hc, rfl⟩ := Option.map_eq_some_iff.mp h
  obtain ⟨data, inbox, hcall, hinbox, rfl⟩ := Client.recv_eq_some hc
  obtain ⟨hpending, hflight, rfl⟩ := hr.inv.only hcall hinbox
  obtain ⟨hwire, hqueue, hphase⟩ := ne_of_pending_eq_zero hpending
  have hstage : (a.clients k).stage = .answered data := hr.inbox k data (by simp [hinbox])
  have hother : ∀ {j : κ} {c : AtomicClient}, j ≠ k → (a.setClient k c).clients j = a.clients j :=
    fun hj => Atomic.clients_setClient_of_ne hj _
  refine ⟨_, Atomic.step_recv fmt ((hr.call k).trans hcall) hstage, ?_, hinv, hr.desk, ?_, ?_, ?_,
    ?_, ?_, ?_, ?_, hr.logged⟩
  · simp only [Atomic.see, hstage, netSee, hinbox]
  · exact forall_setClient (P := fun b c => b.call = c.call) hr.call (by simp [hr.requestNum])
  · exact forall_setClient (P := fun b c => b.requestNum = c.requestNum) hr.requestNum
      (hr.requestNum k)
  · intro r hmem
    rw [hother (hwire r hmem)]
    exact hr.wire r hmem
  · intro r hmem
    rw [hother (hqueue r hmem)]
    exact hr.queue r hmem
  · intro j d hsend hreplying
    rw [hother fun hj => hphase (hj ▸ hreplying)]
    exact hr.serving j d hsend hreplying
  · intro m hmem
    rw [hother (ne_of_inFlight_eq_zero hflight m hmem)]
    exact hr.outgoing m hmem
  · exact forall_setClient (P := fun b c => ∀ d ∈ c.inbox, b.stage = .answered d) hr.inbox (by simp)

/-- What has become of its request makes no difference to a client that gives up. -/
theorem refines_timeout {k : κ} (hr : Refines fmt spec n a)
    (h : netStep fmt spec n (.timeout k) = some n') :
    ∃ a', Atomic.step fmt spec a (.timeout k) = some a' ∧ Refines fmt spec n' a' := by
  have hinv := netInv_netStep hr.inv h
  obtain ⟨c, hc, rfl⟩ := Option.map_eq_some_iff.mp h
  obtain ⟨hkind, hcall, rfl⟩ := Client.timeout_eq_some hc
  have hother : ∀ {j : κ} {c : AtomicClient}, j ≠ k → (a.setClient k c).clients j = a.clients j :=
    fun hj => Atomic.clients_setClient_of_ne hj _
  have hstage : ∀ j, ((a.setClient k { a.clients k with call := .closed }).clients j).stage =
      (a.clients j).stage := by
    intro j
    rcases eq_or_ne j k with rfl | hj
    · simp
    · rw [hother hj]
  refine ⟨_, Atomic.step_timeout fmt ((hr.call k).trans hcall) hkind, hinv, hr.desk, ?_, ?_, ?_, ?_,
    ?_, ?_, ?_, hr.logged⟩
  · exact forall_setClient (P := fun b c => b.call = c.call) hr.call rfl
  · exact forall_setClient (P := fun b c => b.requestNum = c.requestNum) hr.requestNum
      (by simp [hr.requestNum])
  · intro r hmem
    exact (hstage _).trans (hr.wire r hmem)
  · intro r hmem
    exact (hstage _).trans (hr.queue r hmem)
  · intro j data hsend hreplying
    exact (hstage j).trans (hr.serving j data hsend hreplying)
  · intro m hmem
    exact (hstage _).trans (hr.outgoing m hmem)
  · exact forall_setClient (P := fun b c => ∀ d ∈ c.inbox, b.stage = .answered d) hr.inbox (by simp)

/-! ### The rounds of the server -/

/-- The state behind the round that takes a request. -/
theorem serverRound_recv_eq (hn : Sound fmt spec n) (hcall : n.server.call = .recv)
    (hphase : n.server.socket.phase = .ready) (h : n.serverRound fmt = some n') :
    ∃ r rs data desk, n.server.socket.incoming = r :: rs ∧
      answer (reply fmt) (spec r.sender).text n.server.monitor = some (data, desk) ∧
      n' = n.setServer ⟨⟨.replying r.sender, rs, n.server.socket.outgoing⟩, desk, .send data,
        n.server.log ++ [.recv (spec r.sender).text]⟩ := by
  cases hin : n.server.socket.incoming with
  | nil => simp [Net.serverRound, step, hcall, Rep.socket, Rep.recv, hphase, hin] at h
  | cons r rs =>
    obtain ⟨htext, hmore⟩ := hn.queue r (by simp [hin])
    cases ha : answer (reply fmt) r.first n.server.monitor with
    | none => simp [Net.serverRound, step, hcall, Rep.socket, Rep.recv, hphase, hin, ha] at h
    | some p =>
      simp only [Net.serverRound, step, hcall, Rep.socket, Rep.recv, hphase, hin, ha,
        Option.some.injEq, hmore, RepPhase.after] at h
      refine ⟨r, rs, p.1, p.2, rfl, htext ▸ ha, ?_⟩
      rw [← h, htext]

/-- The state behind the round that sends an answer. -/
theorem serverRound_send_eq {k : κ} {data : Bytes} (hcall : n.server.call = .send data)
    (hphase : n.server.socket.phase = .replying k) (h : n.serverRound fmt = some n') :
    n' = (n.setServer ⟨⟨.ready, n.server.socket.incoming,
      n.server.socket.outgoing ++ [(k, data)]⟩, n.server.monitor, .recv,
      n.server.log ++ [.send data]⟩).setClient k ((n.clients k).note data) := by
  simp only [Net.serverRound, step, hcall, Rep.socket, Rep.send, hphase, Option.some.injEq] at h
  exact h.symm

omit [DecidableEq κ] in
theorem Logged.recv {served : List (κ × Bytes)} {log : List Event}
    (h : Logged spec served .recv log) (k : κ) (data : Bytes) :
    Logged spec (served ++ [(k, data)]) (.send data) (log ++ [.recv (spec k).text]) := by
  have hlog := h.eq
  rw [List.append_nil] at hlog
  exact ⟨by simp [hlog]⟩

omit [DecidableEq κ] in
theorem Logged.send {served : List (κ × Bytes)} {log : List Event} {data : Bytes}
    (h : Logged spec served (.send data) log) :
    Logged spec served .recv (log ++ [.send data]) :=
  ⟨(List.append_nil _).trans h.eq⟩

/-- The server takes a request: this is where the service answers it. -/
theorem refines_serverRound_recv (hr : Refines fmt spec n a) (hcall : n.server.call = .recv)
    (hphase : n.server.socket.phase = .ready) (h : n.serverRound fmt = some n') :
    ∃ k a', Atomic.step fmt spec a (.serve k) = some a' ∧ Refines fmt spec n' a' := by
  have hinv : NetInv fmt spec n' := netInv_netStep (e := .serverRound) hr.inv h
  obtain ⟨r, rs, data, desk, hin, ha, rfl⟩ := serverRound_recv_eq hr.inv.1 hcall hphase h
  obtain ⟨hwire, hqueue⟩ := hr.inv.front hin
  have hasked : (a.clients r.sender).stage = .asked := hr.queue r (by simp [hin])
  have hlogged : Logged spec a.served .recv n.server.log := hcall ▸ hr.logged
  have hanswered : ∀ {d : Bytes}, (a.clients r.sender).stage ≠ .answered d := by simp [hasked]
  have hother : ∀ {j : κ} {c : AtomicClient}, j ≠ r.sender →
      (a.setClient r.sender c).clients j = a.clients j :=
    fun hj => Atomic.clients_setClient_of_ne hj _
  refine ⟨r.sender, _, Atomic.step_serve hasked (hr.desk ▸ ha), hinv, rfl, ?_, ?_, ?_, ?_, ?_, ?_,
    ?_, hlogged.recv r.sender data⟩
  · exact Atomic.forall_setClient (P := fun j b => b.call = (n.clients j).call) hr.call
      (hr.call r.sender)
  · exact Atomic.forall_setClient (P := fun j b => b.requestNum = (n.clients j).requestNum)
      hr.requestNum (hr.requestNum r.sender)
  · intro q hq
    exact (congrArg _ (hother (hwire q hq))).trans (hr.wire q hq)
  · intro q hq
    have hmem : q ∈ rs := hq
    exact (congrArg _ (hother (hqueue q hq))).trans (hr.queue q (by simp [hin, hmem]))
  · rintro j d ⟨⟩ ⟨⟩
    simp
  · intro m hm
    exact (congrArg _ (hother fun hj => hanswered (hj ▸ hr.outgoing m hm))).trans (hr.outgoing m hm)
  · intro j d hd
    exact (congrArg _ (hother fun hj => hanswered (hj ▸ hr.inbox j d hd))).trans (hr.inbox j d hd)

theorem refines_serverRound_send (hr : Refines fmt spec n a) {k : κ} {data : Bytes}
    (hcall : n.server.call = .send data) (hphase : n.server.socket.phase = .replying k)
    (h : n.serverRound fmt = some n') : Refines fmt spec n' a := by
  have hinv : NetInv fmt spec n' := netInv_netStep (e := .serverRound) hr.inv h
  obtain rfl := serverRound_send_eq hcall hphase h
  have hlogged : Logged spec a.served (.send data) n.server.log := hcall ▸ hr.logged
  refine ⟨hinv, hr.desk, ?_, ?_, hr.wire, hr.queue, by rintro j d ⟨⟩, ?_, ?_, hlogged.send⟩
  · exact Net.forall_setClient (P := fun j c => (a.clients j).call = c.call) hr.call (hr.call k)
  · exact Net.forall_setClient (P := fun j c => (a.clients j).requestNum = c.requestNum)
      hr.requestNum (hr.requestNum k)
  · intro m hm
    rcases List.mem_append.mp hm with hm | hm
    · exact hr.outgoing m hm
    · rw [List.mem_singleton.mp hm]
      exact hr.serving k data hcall hphase
  · exact Net.forall_setClient
      (P := fun j c => ∀ d ∈ c.inbox, (a.clients j).stage = .answered d) hr.inbox (hr.inbox k)

theorem refines_serverRound (hr : Refines fmt spec n a)
    (h : netStep fmt spec n .serverRound = some n') :
    Refines fmt spec n' a ∨
      ∃ k a', Atomic.step fmt spec a (.serve k) = some a' ∧ Refines fmt spec n' a' := by
  have hserving := hr.inv.1.serving
  generalize hcall : n.server.call = call at hserving
  generalize hphase : n.server.socket.phase = phase at hserving
  cases hserving with
  | recv => exact .inr (refines_serverRound_recv hr hcall hphase h)
  | send _ => exact .inl (refines_serverRound_send hr hcall hphase h)

/-! ### Runs -/

/-- Each event in the network is one of the service, or cannot be seen. -/
theorem simulates_atomic (fmt : Json.FloatFormat) (spec : κ → ClientSpec) :
    Run.Simulates (netStep fmt spec) (netSee spec) (Atomic.step fmt spec) (Atomic.see spec)
      (Refines fmt spec) := by
  apply Run.simulates_of_step
  intro n a e n' hr h
  cases e with
  | send k =>
    obtain ⟨a', ha', hr'⟩ := refines_send hr h
    exact .inr ⟨.send k, a', ha', rfl, hr'⟩
  | arrive i => exact .inl ⟨rfl, refines_arrive hr h⟩
  | loseRequest i => exact .inl ⟨rfl, refines_loseRequest hr h⟩
  | serverRound =>
    rcases refines_serverRound hr h with hr' | ⟨k, a', ha', hr'⟩
    · exact .inl ⟨rfl, hr'⟩
    · exact .inr ⟨.serve k, a', ha', rfl, hr'⟩
  | deliver i => exact .inl ⟨rfl, refines_deliver hr h⟩
  | loseReply i => exact .inl ⟨rfl, refines_loseReply hr h⟩
  | recv k =>
    obtain ⟨a', ha', hsee, hr'⟩ := refines_recv hr h
    exact .inr ⟨.recv k, a', ha', hsee, hr'⟩
  | timeout k =>
    obtain ⟨a', ha', hr'⟩ := refines_timeout hr h
    exact .inr ⟨.timeout k, a', ha', rfl, hr'⟩

/-- Whatever happens to the messages, the clients see a run of the service, and the server's log
and the monitor are those of the answers given in it. -/
theorem exists_atomic_run {desk : Desk} {events : List (NetEvent κ)}
    (h : netRun fmt spec desk events = some n) :
    ∃ events' a, Atomic.run fmt spec desk events' = some a ∧
      Atomic.trace fmt spec desk events' = netTrace fmt spec desk events ∧
      a.desk = n.server.monitor ∧ Logged spec a.served n.server.call n.server.log := by
  obtain ⟨events', a, hrun, htrace, hr⟩ :=
    (simulates_atomic fmt spec).exists_run (refines_start fmt spec desk) h
  exact ⟨events', a, hrun, htrace, hr.desk, hr.logged⟩

/-- The answers to some requests, one after the other, and the monitor as they leave it. -/
def answers (fmt : Json.FloatFormat) : List Bytes → Desk → Option (List Bytes × Desk)
  | [], d => some ([], d)
  | request :: requests, d => do
    let (data, d) ← answer (reply fmt) request d
    let (rest, d) ← answers fmt requests d
    return (data :: rest, d)

theorem answers_concat {requests : List Bytes} {request : Bytes} {d d' d'' : Desk}
    {ds : List Bytes} {data : Bytes} (h : answers fmt requests d = some (ds, d'))
    (ha : answer (reply fmt) request d' = some (data, d'')) :
    answers fmt (requests ++ [request]) d = some (ds ++ [data], d'') := by
  induction requests generalizing d ds with
  | nil =>
    cases h
    simp [answers, ha]
  | cons r requests ih =>
    simp only [answers, Option.bind_eq_bind, Option.bind_eq_some_iff, Option.pure_def,
      Option.some.injEq, Prod.mk.injEq] at h
    obtain ⟨⟨first, e⟩, hfirst, ⟨rest, e'⟩, hrest, rfl, rfl⟩ := h
    simp [answers, hfirst, ih hrest]

/-- The answers given so far are those to the requests in this order. -/
def Atomic.Sequential (fmt : Json.FloatFormat) (spec : κ → ClientSpec) (desk : Desk)
    (a : Atomic κ) : Prop :=
  answers fmt (a.served.map fun p => (spec p.1).text) desk = some (a.served.map (·.2), a.desk)

theorem Atomic.Sequential.step {desk : Desk} {a' : Atomic κ} (h : a.Sequential fmt spec desk)
    {e : AtomicEvent κ} (hstep : Atomic.step fmt spec a e = some a') :
    a'.Sequential fmt spec desk := by
  cases e with
  | send k =>
    rw [Atomic.step] at hstep
    split at hstep <;> cases hstep
    exact h
  | serve k =>
    rw [Atomic.step] at hstep
    split at hstep
    · obtain ⟨⟨data, d⟩, ha, rfl⟩ := Option.map_eq_some_iff.mp hstep
      have hall := answers_concat h ha
      simpa [Atomic.Sequential] using hall
    · cases hstep
  | recv k =>
    rw [Atomic.step] at hstep
    split at hstep <;> cases hstep
    exact h
  | timeout k =>
    rw [Atomic.step] at hstep
    split at hstep <;> cases hstep
    exact h

/-- The answers that the clients have not taken yet have been given. -/
def Atomic.Given (a : Atomic κ) : Prop :=
  ∀ k data, (a.clients k).stage = .answered data → (k, data) ∈ a.served

theorem Atomic.Given.setClient (h : a.Given) {k : κ} {c : AtomicClient}
    (hc : ∀ data, c.stage = .answered data → (k, data) ∈ a.served) : (a.setClient k c).Given := by
  intro j data hj
  rcases eq_or_ne j k with rfl | hne
  · exact hc data (by simpa using hj)
  · rw [Atomic.clients_setClient_of_ne hne] at hj
    exact h j data hj

theorem Atomic.Given.step (h : a.Given) {e : AtomicEvent κ} {a' : Atomic κ}
    (hstep : Atomic.step fmt spec a e = some a') : a'.Given ∧ a.served ⊆ a'.served := by
  cases e with
  | send k =>
    rw [Atomic.step] at hstep
    split at hstep <;> cases hstep
    exact ⟨h.setClient (by rintro data ⟨⟩), fun _ hp => hp⟩
  | serve k =>
    rw [Atomic.step] at hstep
    split at hstep
    · obtain ⟨⟨data, d⟩, -, rfl⟩ := Option.map_eq_some_iff.mp hstep
      refine ⟨fun j data' hj => ?_, List.subset_append_left _ _⟩
      rcases eq_or_ne j k with rfl | hne
      · have hsame : Stage.answered data = .answered data' := by
          simpa [Atomic.setClient] using hj
        cases hsame
        simp
      · have hmem := h j data' (by simpa [Atomic.setClient, hne] using hj)
        exact List.mem_append_left _ hmem
    · cases hstep
  | recv k =>
    rw [Atomic.step] at hstep
    split at hstep <;> cases hstep
    exact ⟨h.setClient (by rintro data ⟨⟩), fun _ hp => hp⟩
  | timeout k =>
    rw [Atomic.step] at hstep
    split at hstep <;> cases hstep
    exact ⟨h.setClient (h k), fun _ hp => hp⟩

/-- What the clients take has been given as an answer. -/
theorem Atomic.Given.of_took (h : a.Given) {events : List (AtomicEvent κ)} {a' : Atomic κ}
    (hrun : Run.run (Atomic.step fmt spec) a events = some a') :
    a.served ⊆ a'.served ∧ ∀ k data,
      (k, ClientEvent.took data) ∈ Run.trace (Atomic.step fmt spec) (Atomic.see spec) a events →
        (k, data) ∈ a'.served := by
  induction events generalizing a with
  | nil =>
    cases hrun
    exact ⟨fun _ hp => hp, by simp⟩
  | cons e events ih =>
    obtain ⟨b, hb, hrest⟩ := Run.run_cons_eq_some_iff.mp hrun
    obtain ⟨hgiven, hserved⟩ := h.step hb
    obtain ⟨hserved', htook⟩ := ih hgiven hrest
    refine ⟨fun p hp => hserved' (hserved hp), fun k data hmem => ?_⟩
    rw [Run.trace_cons hb, List.mem_append] at hmem
    rcases hmem with hsee | hmem
    · apply hserved' (hserved _)
      cases e with
      | recv j =>
        rw [Atomic.see] at hsee
        split at hsee
        · rename_i d hstage
          obtain ⟨rfl, hd⟩ := Prod.mk.inj (List.mem_singleton.mp hsee)
          cases hd
          exact h k data hstage
        · cases hsee
      | _ => simp [Atomic.see] at hsee
    · exact htook k data hmem

/-- In every run the server gives the answers it would give to the same requests one after the
other with no network at all, its log has nothing else, and the clients take nothing else. -/
theorem answers_netRun {desk : Desk} {events : List (NetEvent κ)}
    (h : netRun fmt spec desk events = some n) :
    ∃ served : List (κ × Bytes), Logged spec served n.server.call n.server.log ∧
      answers fmt (served.map fun p => (spec p.1).text) desk =
        some (served.map (·.2), n.server.monitor) ∧
      ∀ k data, (k, ClientEvent.took data) ∈ netTrace fmt spec desk events →
        (k, data) ∈ served := by
  obtain ⟨events', a, hrun, htrace, hr⟩ :=
    (simulates_atomic fmt spec).exists_run (refines_start fmt spec desk) h
  have hstart : (Atomic.start desk : Atomic κ).Sequential fmt spec desk := rfl
  have hseq : a.Sequential fmt spec desk :=
    Run.run_invariant (Atomic.Sequential fmt spec desk) (fun _ _ _ h hstep => h.step hstep) hstart
      hrun
  have hgiven : (Atomic.start desk : Atomic κ).Given := by
    rintro k data ⟨⟩
  refine ⟨a.served, hr.logged, hr.desk ▸ hseq, fun k data hmem => ?_⟩
  exact (hgiven.of_took hrun).2 k data (htrace ▸ hmem)

end Server

end ComputerMonitor
