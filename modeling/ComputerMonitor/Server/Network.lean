import ComputerMonitor.Client.Session
import ComputerMonitor.Server
import ComputerMonitor.Support.Run

/-! Any number of clients with one server, their messages in flight. -/

namespace ComputerMonitor

open Bytes

namespace Server

variable {κ : Type*} [DecidableEq κ]

/-- The requests that have been sent, the server with its socket's queues, and the clients. -/
structure Net (κ : Type*) where
  wire : List (Request κ)
  server : State (Rep κ) Desk
  clients : κ → Client

/-- A request arrives at the end of the server's queue whenever it does, so that all orders are
possible, and a message may also be lost. -/
inductive NetEvent (κ : Type*)
  | send (k : κ)
  | arrive (i : ℕ)
  | loseRequest (i : ℕ)
  | serverRound
  | deliver (i : ℕ)
  | loseReply (i : ℕ)
  | recv (k : κ)
  | timeout (k : κ)

namespace Net

def start (desk : Desk) : Net κ := ⟨[], Server.start (Rep.ofQueue []) desk, fun _ => Client.start⟩

def setWire (n : Net κ) (wire : List (Request κ)) : Net κ := { n with wire }

def setServer (n : Net κ) (server : State (Rep κ) Desk) : Net κ := { n with server }

def setClient (n : Net κ) (k : κ) (c : Client) : Net κ :=
  { n with clients := Function.update n.clients k c }

def enqueue (n : Net κ) (r : Request κ) : Net κ :=
  { n with server.socket.incoming := n.server.socket.incoming ++ [r] }

def setOutgoing (n : Net κ) (outgoing : List (κ × Bytes)) : Net κ :=
  { n with server.socket.outgoing := outgoing }

/-- One call of the server's loop; what it sends goes down in the history of the client it is
for. -/
def serverRound (fmt : Json.FloatFormat) (n : Net κ) : Option (Net κ) :=
  match step (Rep.socket κ) (reply fmt) n.server with
  | .inl server =>
    match n.server.call, n.server.socket.phase with
    | .send data, .replying k =>
      some ((n.setServer server).setClient k ((n.clients k).note data))
    | _, _ => some (n.setServer server)
  | .inr _ => none

end Net

def netStep (fmt : Json.FloatFormat) (spec : κ → ClientSpec) (n : Net κ) :
    NetEvent κ → Option (Net κ)
  | .send k => ((n.clients k).send (spec k).text).map fun c =>
    (n.setWire (n.wire ++ [⟨k, (spec k).text, []⟩])).setClient k c
  | .arrive i => n.wire[i]?.map fun r => (n.setWire (n.wire.eraseIdx i)).enqueue r
  | .loseRequest i => some (n.setWire (n.wire.eraseIdx i))
  | .serverRound => n.serverRound fmt
  | .deliver i => n.server.socket.outgoing[i]?.map fun m =>
    (n.setOutgoing (n.server.socket.outgoing.eraseIdx i)).setClient m.1
      ((n.clients m.1).deliver m.2)
  | .loseReply i => some (n.setOutgoing (n.server.socket.outgoing.eraseIdx i))
  | .recv k => ((n.clients k).recv (spec k).kind.requests).map fun c => n.setClient k c
  | .timeout k => ((n.clients k).timeout (spec k).kind).map fun c => n.setClient k c

def netRun (fmt : Json.FloatFormat) (spec : κ → ClientSpec) (desk : Desk)
    (events : List (NetEvent κ)) : Option (Net κ) :=
  Run.run (netStep fmt spec) (Net.start desk) events

/-! ### The session of each client -/

/-- The request being served. -/
def serving (k : κ) : RepPhase κ → ℕ
  | .ready => 0
  | .receiving k' _ _ => if k' = k then 1 else 0
  | .replying k' => if k' = k then 1 else 0

namespace Net

def pending (n : Net κ) (k : κ) : ℕ :=
  n.wire.countP (fun r => r.sender = k) + n.server.socket.incoming.countP (fun r => r.sender = k) +
    serving k n.server.socket.phase

/-- The replies to a client that its socket does not have yet. -/
def inFlight (n : Net κ) (k : κ) : Multiset Bytes :=
  ((n.server.socket.outgoing.filter fun m => m.1 = k).map (·.2) : List Bytes)

def session (n : Net κ) (k : κ) : Session where
  call := (n.clients k).call
  requestNum := (n.clients k).requestNum
  history := (n.clients k).history
  pending := n.pending k
  replies := n.inFlight k + ((n.clients k).inbox : Multiset Bytes)

end Net

/-- What the server may send for a text. -/
structure Answer (fmt : Json.FloatFormat) (text data : Bytes) : Prop where
  computed : ∃ desk desk', answer (reply fmt) text desk = some (data, desk')
  invalid : data = invalidRequest ↔ ∀ c : Command, text ≠ c.text

/-- A reply that starts with an `i` is not JSON. -/
theorem reply_ne {fmt : Json.FloatFormat} {c : Command} {desk desk' : Desk} {data : Bytes}
    (h : reply fmt c desk = some (data, desk')) : data ≠ invalidRequest := by
  simp only [reply, Option.bind_eq_bind, Option.bind_eq_some_iff, Option.pure_def,
    Option.some.injEq, Prod.mk.injEq] at h
  obtain ⟨⟨j, m⟩, -, text, hdump, rfl, -⟩ := h
  obtain ⟨b, hb, hne⟩ := Json.head_dump hdump
  rintro rfl
  rw [show invalidRequest.head? = some 0x69 from rfl, Option.mem_some_iff] at hb
  exact hne hb.symm

theorem answer_of_eq {fmt : Json.FloatFormat} {text data : Bytes} {desk desk' : Desk}
    (h : answer (reply fmt) text desk = some (data, desk')) : Answer fmt text data := by
  refine ⟨⟨desk, desk', h⟩, ?_⟩
  rw [answer] at h
  cases hd : dispatch text with
  | none =>
    simp only [hd, Option.some.injEq, Prod.mk.injEq] at h
    simp [← h.1, dispatch_eq_none_iff.mp hd]
  | some c =>
    simp only [hd] at h
    have hne := reply_ne h
    have htext := dispatch_eq_some_iff.mp hd
    simp only [hne, false_iff, not_forall, not_not]
    exact ⟨c, htext⟩

/-! ### What each event does to each session -/

/-- Where the server is in its loop: behind the `recv` of a request it has the answer to that. -/
inductive Serving (fmt : Json.FloatFormat) (spec : κ → ClientSpec) : Call → RepPhase κ → Prop
  | recv : Serving fmt spec .recv .ready
  | send {k data} (h : Answer fmt (spec k).text data) :
      Serving fmt spec (.send data) (.replying k)

/-- The requests are the clients' texts, each in one frame. -/
structure Sound (fmt : Json.FloatFormat) (spec : κ → ClientSpec) (n : Net κ) : Prop where
  wire : ∀ r ∈ n.wire, r.first = (spec r.sender).text ∧ r.more = []
  queue : ∀ r ∈ n.server.socket.incoming, r.first = (spec r.sender).text ∧ r.more = []
  serving : Serving fmt spec n.server.call n.server.socket.phase

variable {fmt : Json.FloatFormat} {spec : κ → ClientSpec} {n n' : Net κ}

omit [DecidableEq κ] in
theorem perm_eraseIdx {α : Type*} {xs : List α} {i : ℕ} {x : α} (h : xs[i]? = some x) :
    xs.Perm (x :: xs.eraseIdx i) := by
  obtain ⟨hi, rfl⟩ := List.getElem?_eq_some_iff.mp h
  exact (List.getElem_cons_eraseIdx_perm hi).symm

section

variable (n : Net κ) (k : κ)

@[simp] theorem clients_setClient_self (c : Client) : (n.setClient k c).clients k = c := by
  simp [Net.setClient]

theorem clients_setClient_of_ne {j : κ} (h : j ≠ k) (c : Client) :
    (n.setClient k c).clients j = n.clients j := by
  simp [Net.setClient, h]

@[simp] theorem pending_setClient (j : κ) (c : Client) :
    (n.setClient k c).pending j = n.pending j := rfl

@[simp] theorem inFlight_setClient (j : κ) (c : Client) :
    (n.setClient k c).inFlight j = n.inFlight j := rfl

@[simp] theorem inFlight_setWire (wire : List (Request κ)) :
    (n.setWire wire).inFlight k = n.inFlight k := rfl

@[simp] theorem inFlight_enqueue (r : Request κ) : (n.enqueue r).inFlight k = n.inFlight k := rfl

@[simp] theorem pending_setOutgoing (outgoing : List (κ × Bytes)) :
    (n.setOutgoing outgoing).pending k = n.pending k := rfl

end

theorem session_eq {k : κ} (hc : n'.clients k = n.clients k) (hp : n'.pending k = n.pending k)
    (hf : n'.inFlight k = n.inFlight k) : n'.session k = n.session k := by
  simp [Net.session, hc, hp, hf]

theorem move_of_eq {k : κ} (hc : n'.clients k = n.clients k) (hp : n'.pending k = n.pending k)
    (hf : n'.inFlight k = n.inFlight k) :
    Session.Move (spec k) (Answer fmt (spec k).text) (n.session k) (n'.session k) := by
  rw [session_eq hc hp hf]
  exact .refl _

/-- Losing messages. -/
theorem move_of_le {k : κ} (hc : n'.clients k = n.clients k) (hp : n'.pending k ≤ n.pending k)
    (hf : n'.inFlight k ≤ n.inFlight k) :
    Session.Move (spec k) (Answer fmt (spec k).text) (n.session k) (n'.session k) := by
  have hsession : n'.session k =
      { n.session k with
        pending := n'.pending k
        replies := n'.inFlight k + ((n.clients k).inbox : Multiset Bytes) } := by
    simp [Net.session, hc]
  rw [hsession]
  exact .lose hp (Multiset.add_le_add_right hf)

theorem move_send {k : κ} (h : netStep fmt spec n (.send k) = some n') (j : κ) :
    Session.Move (spec j) (Answer fmt (spec j).text) (n.session j) (n'.session j) := by
  obtain ⟨c, hc, rfl⟩ := Option.map_eq_some_iff.mp h
  obtain ⟨hcall, rfl⟩ := Client.send_eq_some hc
  have hpending : ∀ i, (n.setWire (n.wire ++ [⟨k, (spec k).text, []⟩])).pending i =
      n.pending i + if k = i then 1 else 0 := by
    intro i
    simp only [Net.pending, Net.setWire, List.countP_append, List.countP_singleton,
      decide_eq_true_eq]
    omega
  by_cases hj : k = j
  · subst hj
    have hmove := @Session.Move.send (spec k) (Answer fmt (spec k).text)
      (n.session k) hcall
    convert hmove using 1
    simp [Net.session, hpending]
  · exact move_of_eq (clients_setClient_of_ne _ _ (Ne.symm hj) _) (by simp [hpending, hj]) (by simp)

theorem move_arrive {i : ℕ} (h : netStep fmt spec n (.arrive i) = some n') (j : κ) :
    Session.Move (spec j) (Answer fmt (spec j).text) (n.session j) (n'.session j) := by
  obtain ⟨r, hr, rfl⟩ := Option.map_eq_some_iff.mp h
  refine move_of_eq rfl ?_ rfl
  have hcount := (perm_eraseIdx hr).countP_eq (fun r => r.sender = j)
  simp only [List.countP_cons, decide_eq_true_eq] at hcount
  simp only [Net.pending, Net.enqueue, Net.setWire, List.countP_append, List.countP_singleton,
    decide_eq_true_eq]
  omega

theorem move_loseRequest {i : ℕ} (h : netStep fmt spec n (.loseRequest i) = some n') (j : κ) :
    Session.Move (spec j) (Answer fmt (spec j).text) (n.session j) (n'.session j) := by
  obtain rfl := Option.some.inj h
  refine move_of_le rfl ?_ le_rfl
  have hcount := (List.eraseIdx_sublist n.wire i).countP_le (p := fun r => r.sender = j)
  simp only [Net.pending, Net.setWire]
  omega

/-- The reply that is taken out of the queue. -/
theorem inFlight_eraseIdx {i : ℕ} {m : κ × Bytes} (h : n.server.socket.outgoing[i]? = some m)
    (j : κ) :
    n.inFlight j = (if m.1 = j then {m.2} else 0) +
      (n.setOutgoing (n.server.socket.outgoing.eraseIdx i)).inFlight j := by
  have hperm := (((perm_eraseIdx h).filter fun m => m.1 = j).map (·.2))
  have hcoe : n.inFlight j = _ := Multiset.coe_eq_coe.mpr hperm
  rw [hcoe]
  by_cases hm : m.1 = j
  · simp [hm, Net.inFlight, Net.setOutgoing]
  · simp [hm, Net.inFlight, Net.setOutgoing]

theorem move_deliver {i : ℕ} (h : netStep fmt spec n (.deliver i) = some n') (j : κ) :
    Session.Move (spec j) (Answer fmt (spec j).text) (n.session j) (n'.session j) := by
  obtain ⟨⟨k, data⟩, hm, rfl⟩ := Option.map_eq_some_iff.mp h
  have hflight := inFlight_eraseIdx hm j
  by_cases hj : k = j
  · subst hj
    rcases Client.deliver_cases data (n.clients k) with hc | hc
    · rw [if_pos rfl] at hflight
      convert Session.Move.refl (n.session k) using 1
      simp only [Net.session, clients_setClient_self, pending_setClient, inFlight_setClient,
        pending_setOutgoing, hc, hflight, ← Multiset.coe_add, Multiset.coe_singleton]
      congr 1
      ac_rfl
    · refine move_of_le (by simp [hc]) (by simp) ?_
      rw [hflight, inFlight_setClient]
      exact Multiset.le_add_left _ _
  · refine move_of_eq (clients_setClient_of_ne _ _ (Ne.symm hj) _) (by simp) ?_
    simpa [hj] using hflight.symm

theorem move_loseReply {i : ℕ} (h : netStep fmt spec n (.loseReply i) = some n') (j : κ) :
    Session.Move (spec j) (Answer fmt (spec j).text) (n.session j) (n'.session j) := by
  obtain rfl := Option.some.inj h
  refine move_of_le rfl (by simp) ?_
  exact Multiset.coe_le.mpr (((List.eraseIdx_sublist _ i).filter _).map _).subperm

theorem move_recv {k : κ} (h : netStep fmt spec n (.recv k) = some n') (j : κ) :
    Session.Move (spec j) (Answer fmt (spec j).text) (n.session j) (n'.session j) := by
  obtain ⟨c, hc, rfl⟩ := Option.map_eq_some_iff.mp h
  obtain ⟨data, inbox, hcall, hinbox, rfl⟩ := Client.recv_eq_some hc
  by_cases hj : k = j
  · subst hj
    have hreplies : (n.session k).replies = data ::ₘ (n.inFlight k + (inbox : Multiset Bytes)) := by
      simp [Net.session, hinbox, ← Multiset.cons_coe]
    have hmove := @Session.Move.take (spec k) (Answer fmt (spec k).text)
      (n.session k) _ _ hcall hreplies
    convert hmove using 1
    simp only [Net.session, clients_setClient_self, pending_setClient, inFlight_setClient]
    congr
  · exact move_of_eq (clients_setClient_of_ne _ _ (Ne.symm hj) _) (by simp) (by simp)

theorem move_timeout {k : κ} (h : netStep fmt spec n (.timeout k) = some n') (j : κ) :
    Session.Move (spec j) (Answer fmt (spec j).text) (n.session j) (n'.session j) := by
  obtain ⟨c, hc, rfl⟩ := Option.map_eq_some_iff.mp h
  obtain ⟨hkind, hcall, rfl⟩ := Client.timeout_eq_some hc
  by_cases hj : k = j
  · subst hj
    have hle : n.inFlight k ≤ (n.session k).replies := Multiset.le_add_right _ _
    have hmove := @Session.Move.timeout (spec k) (Answer fmt (spec k).text)
      (n.session k) _ hkind hcall hle
    convert hmove using 1
    simp [Net.session]
  · exact move_of_eq (clients_setClient_of_ne _ _ (Ne.symm hj) _) (by simp) (by simp)

/-- The round that takes a request and computes its answer. -/
theorem serverRound_recv (hn : Sound fmt spec n) (hcall : n.server.call = .recv)
    (hphase : n.server.socket.phase = .ready) (h : n.serverRound fmt = some n') :
    ∃ r rs data server, n.server.socket.incoming = r :: rs ∧ Answer fmt (spec r.sender).text data ∧
      server.call = .send data ∧
      server.socket = ⟨.replying r.sender, rs, n.server.socket.outgoing⟩ ∧
      n' = n.setServer server := by
  cases hin : n.server.socket.incoming with
  | nil => simp [Net.serverRound, step, hcall, Rep.socket, Rep.recv, hphase, hin] at h
  | cons r rs =>
    obtain ⟨htext, hmore⟩ := hn.queue r (by simp [hin])
    cases ha : answer (reply fmt) r.first n.server.monitor with
    | none => simp [Net.serverRound, step, hcall, Rep.socket, Rep.recv, hphase, hin, ha] at h
    | some p =>
      obtain ⟨data, desk⟩ := p
      simp only [Net.serverRound, step, hcall, Rep.socket, Rep.recv, hphase, hin, ha,
        Option.some.injEq] at h
      exact ⟨r, rs, data, _, rfl, htext ▸ answer_of_eq ha, rfl, by rw [hmore]; rfl, h.symm⟩

/-- The round that sends an answer. -/
theorem serverRound_send {k : κ} {data : Bytes} (hcall : n.server.call = .send data)
    (hphase : n.server.socket.phase = .replying k) (h : n.serverRound fmt = some n') :
    ∃ server, server.call = .recv ∧ server.socket =
        ⟨.ready, n.server.socket.incoming, n.server.socket.outgoing ++ [(k, data)]⟩ ∧
      n' = (n.setServer server).setClient k ((n.clients k).note data) := by
  simp only [Net.serverRound, step, hcall, Rep.socket, Rep.send, hphase, Option.some.injEq] at h
  exact ⟨_, rfl, rfl, h.symm⟩

theorem move_serverRound (hn : Sound fmt spec n) (h : netStep fmt spec n .serverRound = some n')
    (j : κ) : Session.Move (spec j) (Answer fmt (spec j).text) (n.session j) (n'.session j) := by
  have hserving := hn.serving
  generalize hcall : n.server.call = call at hserving
  generalize hphase : n.server.socket.phase = phase at hserving
  cases hserving with
  | recv =>
    obtain ⟨r, rs, data, server, hin, -, -, hsocket, rfl⟩ := serverRound_recv hn hcall hphase h
    refine move_of_eq rfl ?_ ?_
    · simp only [Net.pending, Net.setServer, hsocket, hphase, hin, serving, List.countP_cons,
        decide_eq_true_eq]
      omega
    · simp [Net.inFlight, Net.setServer, hsocket]
  | @send k data ha =>
    obtain ⟨server, -, hsocket, rfl⟩ := serverRound_send hcall hphase h
    have hpending : ∀ i, n.pending i = (n.setServer server).pending i + if k = i then 1 else 0 := by
      intro i
      simp [Net.pending, Net.setServer, hsocket, hphase, serving]
    have hflight : ∀ i, (n.setServer server).inFlight i =
        n.inFlight i + if k = i then {data} else 0 := by
      intro i
      by_cases hi : k = i <;>
      simp [Net.inFlight, Net.setServer, hsocket, hi, ← Multiset.coe_add]
    by_cases hj : k = j
    · subst hj
      have hmove := @Session.Move.answer (spec k) _ (n.session k)
        ((n.setServer server).pending k) _ ha ((hpending k).trans (by simp))
      convert hmove using 1
      simp only [Net.session, clients_setClient_self, pending_setClient, inFlight_setClient,
        hflight,
        Client.note, if_true, ← Multiset.singleton_add]
      congr 1
      ac_rfl
    · refine move_of_eq (clients_setClient_of_ne _ _ (Ne.symm hj) _) ?_ ?_
      · simpa [hj] using (hpending j).symm
      · simpa [hj] using hflight j

/-- An event is one step of each client's session. -/
theorem move_netStep (hn : Sound fmt spec n) {e : NetEvent κ} (h : netStep fmt spec n e = some n')
    (j : κ) : Session.Move (spec j) (Answer fmt (spec j).text) (n.session j) (n'.session j) := by
  cases e with
  | send k => exact move_send h j
  | arrive i => exact move_arrive h j
  | loseRequest i => exact move_loseRequest h j
  | serverRound => exact move_serverRound hn h j
  | deliver i => exact move_deliver h j
  | loseReply i => exact move_loseReply h j
  | recv k => exact move_recv h j
  | timeout k => exact move_timeout h j

/-! ### Runs -/

theorem sound_serverRound (hn : Sound fmt spec n) (h : n.serverRound fmt = some n') :
    Sound fmt spec n' := by
  have hserving := hn.serving
  generalize hcall : n.server.call = call at hserving
  generalize hphase : n.server.socket.phase = phase at hserving
  cases hserving with
  | recv =>
    obtain ⟨r, rs, data, server, hin, ha, hsend, hsocket, rfl⟩ := serverRound_recv hn hcall hphase h
    refine ⟨hn.wire, fun q hq => hn.queue q ?_, ?_⟩
    · simp only [Net.setServer, hsocket] at hq
      rw [hin]
      exact List.mem_cons_of_mem r hq
    · simp only [Net.setServer, hsend, hsocket]
      exact .send ha
  | @send k data ha =>
    obtain ⟨server, hrecv, hsocket, rfl⟩ := serverRound_send hcall hphase h
    refine ⟨hn.wire, fun q hq => hn.queue q ?_, ?_⟩
    · simpa only [Net.setClient, Net.setServer, hsocket] using hq
    · simp only [Net.setClient, Net.setServer, hrecv, hsocket]
      exact .recv

theorem sound_netStep (hn : Sound fmt spec n) {e : NetEvent κ}
    (h : netStep fmt spec n e = some n') : Sound fmt spec n' := by
  cases e with
  | send k =>
    obtain ⟨c, -, rfl⟩ := Option.map_eq_some_iff.mp h
    refine ⟨?_, hn.queue, hn.serving⟩
    simpa [Net.setClient, Net.setWire, or_imp, forall_and] using hn.wire
  | arrive i =>
    obtain ⟨r, hr, rfl⟩ := Option.map_eq_some_iff.mp h
    have hmem : r ∈ n.wire := List.mem_of_getElem? hr
    refine ⟨fun q hq => hn.wire q (List.mem_of_mem_eraseIdx hq), ?_, hn.serving⟩
    intro q hq
    rcases List.mem_append.mp hq with hq | hq
    · exact hn.queue q hq
    · rw [List.mem_singleton.mp hq]
      exact hn.wire r hmem
  | loseRequest i =>
    obtain rfl := Option.some.inj h
    exact ⟨fun q hq => hn.wire q (List.mem_of_mem_eraseIdx hq), hn.queue, hn.serving⟩
  | serverRound => exact sound_serverRound hn h
  | deliver i =>
    obtain ⟨m, -, rfl⟩ := Option.map_eq_some_iff.mp h
    exact ⟨hn.wire, hn.queue, hn.serving⟩
  | loseReply i =>
    obtain rfl := Option.some.inj h
    exact ⟨hn.wire, hn.queue, hn.serving⟩
  | recv k =>
    obtain ⟨c, -, rfl⟩ := Option.map_eq_some_iff.mp h
    exact ⟨hn.wire, hn.queue, hn.serving⟩
  | timeout k =>
    obtain ⟨c, -, rfl⟩ := Option.map_eq_some_iff.mp h
    exact ⟨hn.wire, hn.queue, hn.serving⟩

/-- Everything is sound and all sessions keep their invariant. -/
def NetInv (fmt : Json.FloatFormat) (spec : κ → ClientSpec) (n : Net κ) : Prop :=
  Sound fmt spec n ∧ ∀ k, Session.Inv (spec k) (Answer fmt (spec k).text) (n.session k)

theorem netInv_start (fmt : Json.FloatFormat) (spec : κ → ClientSpec) (desk : Desk) :
    NetInv fmt spec (Net.start desk) := by
  refine ⟨⟨by simp [Net.start], ?_, .recv⟩, fun k => Session.inv_start⟩
  simp [Net.start, start, Rep.ofQueue]

theorem netInv_netStep {e : NetEvent κ} (hn : NetInv fmt spec n)
    (h : netStep fmt spec n e = some n') : NetInv fmt spec n' :=
  ⟨sound_netStep hn.1 h, fun k => Session.inv_move (hn.2 k) (move_netStep hn.1 h k)⟩

/-- In every run each client has its requests answered one after the other: what it takes is the
answer to the request it has just sent, and it never has a second one under way. -/
theorem orderly_netRun {desk : Desk} {events : List (NetEvent κ)}
    (h : netRun fmt spec desk events = some n) (k : κ) :
    Session.Orderly (spec k) (Answer fmt (spec k).text) (n.clients k).history ∧
      n.pending k ≤ 1 := by
  have hn : NetInv fmt spec n :=
    Run.run_invariant (NetInv fmt spec) (fun _ _ _ => netInv_netStep) (netInv_start fmt spec desk) h
  exact ⟨(hn.2 k).orderly, (hn.2 k).pending_le⟩

def sampleSpec : ℕ → ClientSpec
  | 0 => ⟨.requestDataFromRaid, ascii "DiskIO"⟩
  | _ => ⟨.noBlockSocket, ascii "help"⟩

def sampleDesk : Desk :=
  ⟨Monitor.create, fun _ => ⟨fun _ => .ofText [], 0, fun _ => .ofText [], fun _ => .ofText [],
    (.finite 0, .finite 0)⟩⟩

/-- The second client's request is answered first, and its answer to the second request too late. -/
def sampleEvents : List (NetEvent ℕ) :=
  [.send 0, .send 1, .arrive 1, .arrive 0, .serverRound, .serverRound, .serverRound, .deliver 0,
    .recv 1, .serverRound, .deliver 0, .recv 0, .send 1, .arrive 0, .timeout 1, .serverRound,
    .serverRound, .deliver 0]

theorem orderly_netRun_diskIO :
    ∃ n, netRun sampleFormat sampleSpec sampleDesk sampleEvents = some n ∧
      (n.clients 0).history.length = 3 ∧ (n.clients 1).history.length = 6 ∧
      ∀ k, Session.Orderly (sampleSpec k) (Answer sampleFormat (sampleSpec k).text)
        (n.clients k).history ∧ n.pending k ≤ 1 := by
  have hlengths : (netRun sampleFormat sampleSpec sampleDesk sampleEvents).map
      (fun n => ((n.clients 0).history.length, (n.clients 1).history.length)) = some (3, 6) := by
    decide +kernel
  obtain ⟨n, hn, hlength⟩ := Option.map_eq_some_iff.mp hlengths
  rw [Prod.mk.injEq] at hlength
  exact ⟨n, hn, hlength.1, hlength.2, orderly_netRun hn⟩

end Server

end ComputerMonitor
