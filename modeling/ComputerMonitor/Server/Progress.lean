import ComputerMonitor.Server.Cache
import ComputerMonitor.Server.Encoding

/-! How long requests wait for their answers, what the server can be waiting for, and how long the
clients run. -/

namespace ComputerMonitor

open Bytes

namespace Client

/-- A client makes no more requests than its limit. -/
def Counted (limit : ℕ) (c : Client) : Prop :=
  match c.call with
  | .send => c.requestNum < limit
  | .wait => c.requestNum ≤ limit
  | .done => True
  | .closed => True

/-- The calls that a client can still make: two for each request. -/
def left (limit : ℕ) (c : Client) : ℕ :=
  match c.call with
  | .send => 2 * (limit - c.requestNum)
  | .wait => 2 * (limit - c.requestNum) + 1
  | .done => 0
  | .closed => 0

def Ended (c : Client) : Prop := c.call = .done ∨ c.call = .closed

variable {limit : ℕ} {c c' : Client}

theorem left_send {text : Bytes} (hc : c.Counted limit) (h : c.send text = some c') :
    c'.Counted limit ∧ c'.left limit + 1 ≤ c.left limit := by
  obtain ⟨hcall, rfl⟩ := send_eq_some h
  simp only [Counted, left, hcall] at hc ⊢
  omega

theorem left_recv (h : c.recv limit = some c') :
    c'.Counted limit ∧ c'.left limit + 1 ≤ c.left limit := by
  obtain ⟨data, inbox, hcall, -, rfl⟩ := recv_eq_some h
  simp only [Counted, left, hcall]
  split_ifs with hlt
  · exact ⟨hlt, le_rfl⟩
  · exact ⟨trivial, Nat.le_add_left 1 _⟩

theorem left_timeout {kind : ClientKind} (h : c.timeout kind = some c') :
    c'.Counted limit ∧ c'.left limit + 1 ≤ c.left limit := by
  obtain ⟨-, hcall, rfl⟩ := timeout_eq_some h
  simp only [Counted, left, hcall]
  exact ⟨trivial, by omega⟩

end Client

/-- How often a client has been answered. -/
def Client.answered (c : Client) : ℕ :=
  c.history.countP fun
    | .answered _ => true
    | _ => false

namespace Server

variable {κ : Type*} [DecidableEq κ]

def NetEvent.isRound : NetEvent κ → Bool
  | .serverRound => true
  | _ => false

variable {fmt : Json.FloatFormat} {spec : κ → ClientSpec} {n n' : Net κ}

/-! ### Rounds until the answer -/

/-- The rounds before the answer to the request at place `i` of the queue has been sent: two for
each request up to it, and one for the answer that is being sent. -/
def due (i : ℕ) : Call → ℕ
  | .recv => 2 * (i + 1)
  | .send _ => 2 * (i + 1) + 1

/-- The answer to a client is `m` rounds away. -/
inductive Due (k : κ) (n : Net κ) : ℕ → Prop
  | queued {i : ℕ} {r : Request κ} (h : n.server.socket.incoming[i]? = some r)
      (hk : r.sender = k) : Due k n (due i n.server.call)
  | serving {data : Bytes} (hcall : n.server.call = .send data)
      (hphase : n.server.socket.phase = .replying k) : Due k n 1

theorem answered_setClient {j : κ} {c : Client} (h : c.answered = (n.clients j).answered) (k : κ) :
    ((n.setClient j c).clients k).answered = (n.clients k).answered := by
  rcases eq_or_ne k j with rfl | hk
  · simp [h]
  · rw [clients_setClient_of_ne _ _ hk]

theorem answered_note (c : Client) (data : Bytes) : (c.note data).answered = c.answered + 1 := by
  simp [Client.answered, Client.note]

/-- Only a round of the server answers. -/
theorem answered_netStep {e : NetEvent κ} (he : e.isRound = false)
    (h : netStep fmt spec n e = some n') (k : κ) :
    (n'.clients k).answered = (n.clients k).answered := by
  cases e with
  | send j =>
    obtain ⟨c, hc, rfl⟩ := Option.map_eq_some_iff.mp h
    obtain ⟨-, rfl⟩ := Client.send_eq_some hc
    exact answered_setClient (by simp [Client.answered, Net.setWire]) k
  | arrive i =>
    obtain ⟨r, -, rfl⟩ := Option.map_eq_some_iff.mp h
    rfl
  | loseRequest i =>
    obtain rfl := Option.some.inj h
    rfl
  | serverRound => cases he
  | deliver i =>
    obtain ⟨m, -, rfl⟩ := Option.map_eq_some_iff.mp h
    rcases Client.deliver_cases m.2 (n.clients m.1) with hc | hc <;>
    exact answered_setClient (by rw [hc]; rfl) k
  | loseReply i =>
    obtain rfl := Option.some.inj h
    rfl
  | recv j =>
    obtain ⟨c, hc, rfl⟩ := Option.map_eq_some_iff.mp h
    obtain ⟨data, inbox, -, -, rfl⟩ := Client.recv_eq_some hc
    exact answered_setClient (by simp [Client.answered]) k
  | timeout j =>
    obtain ⟨c, hc, rfl⟩ := Option.map_eq_some_iff.mp h
    obtain ⟨-, -, rfl⟩ := Client.timeout_eq_some hc
    exact answered_setClient (by simp [Client.answered]) k

/-- The other events leave the server as it is, but for what comes to the end of its queue and what
goes from its outgoing messages. -/
theorem server_netStep {e : NetEvent κ} (he : e.isRound = false)
    (h : netStep fmt spec n e = some n') :
    n'.server.call = n.server.call ∧ n'.server.socket.phase = n.server.socket.phase ∧
      n'.server.monitor = n.server.monitor ∧
      n.server.socket.incoming <+: n'.server.socket.incoming := by
  cases e with
  | arrive i =>
    obtain ⟨r, -, rfl⟩ := Option.map_eq_some_iff.mp h
    exact ⟨rfl, rfl, rfl, List.prefix_append _ _⟩
  | loseRequest i =>
    obtain rfl := Option.some.inj h
    exact ⟨rfl, rfl, rfl, List.prefix_rfl⟩
  | serverRound => cases he
  | loseReply i =>
    obtain rfl := Option.some.inj h
    exact ⟨rfl, rfl, rfl, List.prefix_rfl⟩
  | send j | deliver j | recv j | timeout j =>
    obtain ⟨c, -, rfl⟩ := Option.map_eq_some_iff.mp h
    exact ⟨rfl, rfl, rfl, List.prefix_rfl⟩

theorem Due.netStep {k : κ} {m : ℕ} (hd : Due k n m) {e : NetEvent κ} (he : e.isRound = false)
    (h : netStep fmt spec n e = some n') : Due k n' m := by
  obtain ⟨hcall, hphase, -, hqueue⟩ := server_netStep he h
  cases hd with
  | @queued i r hget hk =>
    obtain ⟨more, hmore⟩ := hqueue
    rw [← hcall]
    apply Due.queued _ hk
    rw [← hmore, List.getElem?_append_left (List.getElem?_eq_some_iff.mp hget).1, hget]
  | serving hsend hreplying => exact .serving (hcall.trans hsend) (hphase.trans hreplying)

/-- A round brings every answer one round nearer, or sends it. -/
theorem Due.serverRound (hn : Sound fmt spec n) {k : κ} {m : ℕ} (hd : Due k n (m + 1))
    (h : n.serverRound fmt = some n') :
    (n'.clients k).answered = (n.clients k).answered + 1 ∨ Due k n' m := by
  have hserving := hn.serving
  generalize hcall : n.server.call = call at hserving
  generalize hphase : n.server.socket.phase = phase at hserving
  generalize hm : m + 1 = rounds at hd
  cases hserving with
  | recv =>
    obtain ⟨r, rs, data, desk, hin, -, rfl⟩ := serverRound_recv_eq hn hcall hphase h
    cases hd with
    | serving hsend _ => cases hcall.symm.trans hsend
    | @queued i q hget hk =>
      right
      rw [hcall, due] at hm
      cases i with
      | zero =>
        obtain rfl : r = q := by simpa [hin] using hget
        obtain rfl : m = 1 := by omega
        exact .serving rfl (congrArg _ hk)
      | succ i =>
        obtain rfl : m = due i (.send data) := by
          rw [due]
          omega
        exact .queued (by simpa [hin, Net.setServer] using hget) hk
  | @send j data ha =>
    obtain rfl := serverRound_send_eq hcall hphase h
    cases hd with
    | serving _ hreplying =>
      obtain rfl : k = j := by
        rw [hphase] at hreplying
        cases hreplying
        rfl
      left
      rw [clients_setClient_self, answered_note]
    | @queued i q hget hk =>
      right
      rw [hcall, due] at hm
      obtain rfl : m = due i .recv := by
        rw [due]
        omega
      exact .queued hget hk

theorem answered_le_serverRound (hn : Sound fmt spec n) (h : n.serverRound fmt = some n') (k : κ) :
    (n.clients k).answered ≤ (n'.clients k).answered := by
  have hserving := hn.serving
  generalize hcall : n.server.call = call at hserving
  generalize hphase : n.server.socket.phase = phase at hserving
  cases hserving with
  | recv =>
    obtain ⟨r, rs, data, desk, -, -, rfl⟩ := serverRound_recv_eq hn hcall hphase h
    exact le_refl _
  | @send j data ha =>
    obtain rfl := serverRound_send_eq hcall hphase h
    rcases eq_or_ne k j with rfl | hk
    · rw [clients_setClient_self, answered_note]
      exact Nat.le_succ _
    · rw [clients_setClient_of_ne _ _ hk]
      exact le_refl _

theorem answered_le_netStep (hn : Sound fmt spec n) {e : NetEvent κ}
    (h : netStep fmt spec n e = some n') (k : κ) :
    (n.clients k).answered ≤ (n'.clients k).answered := by
  cases he : e.isRound with
  | false => exact (answered_netStep he h k).ge
  | true =>
    cases e with
    | serverRound => exact answered_le_serverRound hn h k
    | _ => cases he

/-- Requests are answered in the order of the queue: whatever else happens, the one at place `i` is
answered within `2 * (i + 1)` rounds of the server, and one more where an answer is being sent. -/
theorem answered_of_rounds {desk : Desk} {before events : List (NetEvent κ)} {i : ℕ} {r : Request κ}
    (hn : netRun fmt spec desk before = some n) (hget : n.server.socket.incoming[i]? = some r)
    (h : Run.run (netStep fmt spec) n events = some n')
    (hrounds : due i n.server.call ≤ events.countP NetEvent.isRound) :
    (n.clients r.sender).answered < (n'.clients r.sender).answered := by
  have hsound : Sound fmt spec n :=
    Run.run_invariant (Sound fmt spec) (fun _ _ _ hs hstep => sound_netStep hs hstep)
      (netInv_start fmt spec desk).1 hn
  let Done (u : Net κ) : Prop :=
    Sound fmt spec u ∧ (n.clients r.sender).answered < (u.clients r.sender).answered
  let Waits (m : ℕ) (u : Net κ) : Prop :=
    Sound fmt spec u ∧ (n.clients r.sender).answered ≤ (u.clients r.sender).answered ∧
      Due r.sender u m
  have hwaits : Waits (due i n.server.call) n := ⟨hsound, le_rfl, .queued hget rfl⟩
  have hdone : Done n' := by
    apply Run.of_countdown (P := Done) (W := Waits) _ _ _ (.inr hwaits) h hrounds
    · rintro u e v ⟨hu, hlt⟩ hstep
      exact ⟨sound_netStep hu hstep, hlt.trans_le (answered_le_netStep hu hstep _)⟩
    · rintro u ⟨-, -, hd⟩
      generalize hzero : 0 = m at hd
      cases hd with
      | queued _ _ => cases hcall : u.server.call <;> simp [hcall, due] at hzero
      | serving _ _ => cases hzero
    · rintro m u e v ⟨hu, hle, hd⟩ hstep
      have hv := sound_netStep hu hstep
      have hle' := hle.trans (answered_le_netStep hu hstep r.sender)
      cases he : e.isRound with
      | false => exact .inr ⟨hv, hle', by simpa using hd.netStep he hstep⟩
      | true =>
        cases e with
        | serverRound =>
          rcases hd.serverRound hu hstep with hanswered | hd'
          · left
            exact ⟨hv, by omega⟩
          · exact .inr ⟨hv, hle', by simpa using hd'⟩
        | _ => cases he
  exact hdone.2

/-- Two requests, the later client's in front. -/
def queuedEvents : List (NetEvent ℕ) := [.send 0, .send 1, .arrive 1, .arrive 0]

theorem answered_of_rounds_queued :
    ∃ n n', netRun sampleFormat sampleSpec sampleDesk queuedEvents = some n ∧
      Run.run (netStep sampleFormat sampleSpec) n (List.replicate 4 .serverRound) = some n' ∧
      (n.clients 0).answered < (n'.clients 0).answered := by
  have hsome : (netRun sampleFormat sampleSpec sampleDesk
      (queuedEvents ++ List.replicate 4 .serverRound)).isSome = true := by decide +kernel
  have hqueue : ∀ n, netRun sampleFormat sampleSpec sampleDesk queuedEvents = some n →
      n.server.call = .recv ∧ n.server.socket.incoming[1]? = some ⟨0, ascii "DiskIO", []⟩ := by
    rintro n ⟨⟩
    exact ⟨rfl, rfl⟩
  obtain ⟨n', hn'⟩ := Option.isSome_iff_exists.mp hsome
  obtain ⟨n, hn, hrest⟩ := Run.run_append_eq_some_iff.mp hn'
  obtain ⟨hcall, hget⟩ := hqueue n hn
  exact ⟨n, n', hn, hrest, answered_of_rounds hn hget hrest (by rw [hcall]; decide)⟩

/-! ### What the server can be waiting for -/

/-- Everything a request finds can be written as text. -/
def Fine (r : Readings) : Prop := ∃ l cpuinfo, Finds r l cpuinfo ∧ MountsValid l ∧ CpuValid cpuinfo

def CacheValid (m : Monitor) : Prop :=
  Utf8 m.cpuMonitor.modelName ∧ Utf8 m.cpuMonitor.baseClock

/-- Fine readings are still to come. -/
structure Prepared (d : Desk) : Prop where
  cache : CacheValid d.monitor
  readings : ∀ i, Fine (d.readings i)

theorem utf8_kept {old new : Bytes} (hold : Utf8 old) (hnew : Utf8 new) :
    Utf8 (CPUMonitor.kept old new) := by
  rw [CPUMonitor.kept]
  split_ifs
  · exact hnew
  · exact hold

theorem exists_getCPU_of_cacheValid {m : Monitor} (hm : CacheValid m) {r : Readings}
    {cpuinfo : Bytes} (hr : r.cpuinfo = fun _ => .ofText cpuinfo) (hvalid : CpuValid cpuinfo) :
    ∃ cpu m', m.getCPU r = some (cpu, m') ∧ cpu.Writable ∧ CacheValid m' := by
  obtain ⟨hname, hclock⟩ := (cpuValid_iff cpuinfo).mp hvalid
  have hname' := utf8_kept hm.1 hname
  have hclock' := utf8_kept hm.2 hclock
  refine ⟨_, _, Monitor.getCPU_ofText m (s := fun _ => cpuinfo) hr, ?_, hname', hclock'⟩
  rw [Json.writable_object]
  simp [Monitor.utf8_key, Monitor.writable_cpuEntry, hname', hclock']

theorem exists_requestBaseInfo {d : Desk} (hd : Prepared d) :
    ∃ j m, document .requestBaseInfo d.monitor (d.readings 0) = some (j, m) ∧ j.Writable ∧
      CacheValid m := by
  obtain ⟨l, cpuinfo, hfinds, hmounts, hvalid⟩ := hd.readings 0
  obtain ⟨cpu, m, hcpu, hwritable, hm⟩ :=
    exists_getCPU_of_cacheValid hd.cache hfinds.cpuinfo hvalid
  obtain ⟨memory, hmemory⟩ := Monitor.exists_getMemory (d.readings 0)
  have hdisks := getDisksByDf_eq hfinds 0
  by_cases hne : l.devRows.map DfRow.disk = []
  · rw [hne] at hdisks
    exact ⟨_, m, Monitor.getInfoByJson_nil hcpu hmemory hdisks, by simp, hm⟩
  · refine ⟨_, m, Monitor.getInfoByJson_of_ne_nil hcpu hmemory hdisks hne, ?_, hm⟩
    rw [Monitor.writable_merged (Monitor.holds_getCPU hcpu) (Monitor.holds_getMemory hmemory),
      forall_disk_iff hfinds.words]
    exact ⟨hmounts, hwritable, Monitor.writable_getMemory hmemory⟩

theorem exists_document {d : Desk} (hd : Prepared d) (fmt : Json.FloatFormat) (c : Command) :
    ∃ j m, document c d.monitor (d.readings 0) = some (j, m) ∧ j.Writable ∧ CacheValid m := by
  by_cases hc : c = .requestBaseInfo
  · rw [hc]
    exact exists_requestBaseInfo hd
  · obtain ⟨l, cpuinfo, hfinds, hmounts, -⟩ := hd.readings 0
    have hsome : (reply fmt c d).isSome = true := by
      cases c with
      | requestBaseInfo => exact absurd rfl hc
      | disksOverview => exact isSome_disksOverview fmt hfinds
      | disksInfo => exact (isSome_disksInfo fmt hfinds).mpr hmounts
      | diskIO => exact isSome_diskIO fmt d
    obtain ⟨j, m, hj, hwritable⟩ := (isSome_reply fmt c d).mp hsome
    exact ⟨j, m, hj, hwritable, (cpuText_document hc hj).1 ▸ hd.cache⟩

/-- Every command is answered and the next one as well. -/
theorem Prepared.exists_reply (fmt : Json.FloatFormat) {d : Desk} (hd : Prepared d) (c : Command) :
    ∃ data d', reply fmt c d = some (data, d') ∧ Prepared d' := by
  obtain ⟨j, m, hj, hwritable, hm⟩ := exists_document hd fmt c
  obtain ⟨data, hdata⟩ := Option.isSome_iff_exists.mp ((Json.isSome_dump_iff fmt j).mpr hwritable)
  exact ⟨data, d.next m, by simp [reply, hj, hdata], hm, fun i => hd.readings (i + 1)⟩

theorem Prepared.exists_answer (fmt : Json.FloatFormat) {d : Desk} (hd : Prepared d)
    (text : Bytes) : ∃ data d', answer (reply fmt) text d = some (data, d') ∧ Prepared d' := by
  rw [answer]
  cases dispatch text with
  | none => exact ⟨_, d, rfl, hd⟩
  | some c => exact hd.exists_reply fmt c

/-- How many rounds the server can make without another request. -/
def backlog (n : Net κ) : ℕ :=
  match n.server.call with
  | .recv => 2 * n.server.socket.incoming.length
  | .send _ => 2 * n.server.socket.incoming.length + 1

/-- The server waits in `recv` for a request. -/
structure Waiting (n : Net κ) : Prop where
  call : n.server.call = .recv
  phase : n.server.socket.phase = .ready
  incoming : n.server.socket.incoming = []

omit [DecidableEq κ] in
theorem backlog_eq_zero_iff (hn : Sound fmt spec n) : backlog n = 0 ↔ Waiting n := by
  have hserving := hn.serving
  generalize hcall : n.server.call = call at hserving
  generalize hphase : n.server.socket.phase = phase at hserving
  cases hserving with
  | recv =>
    simp only [backlog, hcall, Nat.mul_eq_zero, OfNat.ofNat_ne_zero, false_or,
      List.length_eq_zero_iff]
    exact ⟨fun hin => ⟨hcall, hphase, hin⟩, Waiting.incoming⟩
  | send =>
    simp only [backlog, hcall, Nat.add_one_ne_zero, false_iff]
    rintro ⟨hrecv, -, -⟩
    rw [hcall] at hrecv
    cases hrecv

/-- A server with a backlog makes one round of it. -/
theorem serverRound_cases (hn : Sound fmt spec n) (hd : Prepared n.server.monitor) :
    (backlog n = 0 ∧ n.serverRound fmt = none) ∨
      ∃ n', n.serverRound fmt = some n' ∧ backlog n = backlog n' + 1 ∧
        Prepared n'.server.monitor := by
  have hserving := hn.serving
  generalize hcall : n.server.call = call at hserving
  generalize hphase : n.server.socket.phase = phase at hserving
  cases hserving with
  | recv =>
    cases hin : n.server.socket.incoming with
    | nil =>
      left
      simp [backlog, hcall, hin, Net.serverRound, step, Rep.socket, Rep.recv, hphase]
    | cons r rs =>
      obtain ⟨data, d', ha, hd'⟩ := hd.exists_answer fmt r.first
      right
      refine ⟨n.setServer ⟨⟨.after r.sender r.more, rs, n.server.socket.outgoing⟩, d', .send data,
        n.server.log ++ [.recv r.first]⟩, ?_, ?_, hd'⟩
      · simp [Net.serverRound, step, hcall, Rep.socket, Rep.recv, hphase, hin, ha]
      · simp [backlog, hcall, hin, Net.setServer]
        omega
  | @send k data ha =>
    right
    refine ⟨(n.setServer ⟨⟨.ready, n.server.socket.incoming,
      n.server.socket.outgoing ++ [(k, data)]⟩, n.server.monitor, .recv,
      n.server.log ++ [.send data]⟩).setClient k ((n.clients k).note data), ?_, ?_, hd⟩
    · simp [Net.serverRound, step, hcall, Rep.socket, Rep.send, hphase]
    · simp [backlog, hcall, Net.setServer, Net.setClient]

theorem prepared_netStep (hn : Sound fmt spec n) (hd : Prepared n.server.monitor) {e : NetEvent κ}
    (h : netStep fmt spec n e = some n') : Prepared n'.server.monitor := by
  cases he : e.isRound with
  | false =>
    obtain ⟨-, -, hmonitor, -⟩ := server_netStep he h
    exact hmonitor ▸ hd
  | true =>
    cases e with
    | serverRound =>
      rcases serverRound_cases hn hd with ⟨-, hnone⟩ | ⟨n'', hsome, -, hd'⟩
      · rw [netStep, hnone] at h
        cases h
      · rw [netStep, hsome] at h
        cases h
        exact hd'
    | _ => cases he

theorem exists_rounds_iff (hn : Sound fmt spec n) (hd : Prepared n.server.monitor) (m : ℕ) :
    (∃ n', Run.run (netStep fmt spec) n (List.replicate m .serverRound) = some n') ↔
      m ≤ backlog n := by
  induction m generalizing n with
  | zero => simp
  | succ m ih =>
    simp only [List.replicate_succ, Run.run_cons_eq_some_iff, netStep]
    rcases serverRound_cases hn hd with ⟨hzero, hnone⟩ | ⟨u, hu, hbacklog, hd'⟩
    · simp [hzero, hnone]
    · have hrest := ih (sound_serverRound hn hu) hd'
      simp only [hu, Option.some.injEq, exists_eq_left']
      rw [hrest, hbacklog]
      exact Nat.succ_le_succ_iff.symm

theorem backlog_of_rounds (hn : Sound fmt spec n) (hd : Prepared n.server.monitor) {m : ℕ}
    (h : Run.run (netStep fmt spec) n (List.replicate m .serverRound) = some n') :
    backlog n = backlog n' + m ∧ Sound fmt spec n' := by
  induction m generalizing n with
  | zero =>
    cases h
    exact ⟨rfl, hn⟩
  | succ m ih =>
    simp only [List.replicate_succ, Run.run_cons_eq_some_iff, netStep] at h
    obtain ⟨u, hu, hrest⟩ := h
    rcases serverRound_cases hn hd with ⟨-, hnone⟩ | ⟨v, hv, hbacklog, hd'⟩
    · rw [hnone] at hu
      cases hu
    · obtain rfl : u = v := Option.some.inj (hu.symm.trans hv)
      obtain ⟨hrounds, hsound⟩ := ih (sound_serverRound hn hu) hd' hrest
      exact ⟨by omega, hsound⟩

/-- While the disks and the processor have names that can be written, the server never stops: in
every state it makes the two rounds for each request in its queue, and the one for an answer it has
begun, and only then waits in `recv`. -/
theorem exists_rounds_netRun {desk : Desk} {events : List (NetEvent κ)} (hdesk : Prepared desk)
    (h : netRun fmt spec desk events = some n) (m : ℕ) :
    ((∃ n', Run.run (netStep fmt spec) n (List.replicate m .serverRound) = some n') ↔
      m ≤ backlog n) ∧
    ∀ n', Run.run (netStep fmt spec) n (List.replicate m .serverRound) = some n' →
      (Waiting n' ↔ m = backlog n) := by
  have hinv : Sound fmt spec n ∧ Prepared n.server.monitor := by
    apply Run.run_invariant (fun u : Net κ => Sound fmt spec u ∧ Prepared u.server.monitor) _ _ h
    · rintro u e v ⟨hu, hd⟩ hstep
      exact ⟨sound_netStep hu hstep, prepared_netStep hu hd hstep⟩
    · exact ⟨(netInv_start fmt spec desk).1, hdesk⟩
  refine ⟨exists_rounds_iff hinv.1 hinv.2 m, fun n' hrun => ?_⟩
  obtain ⟨hbacklog, hsound⟩ := backlog_of_rounds hinv.1 hinv.2 hrun
  rw [← backlog_eq_zero_iff hsound]
  omega

open DiskPrivate in
/-- A machine with one disk, and nothing to read of its processor. -/
def fineDesk : Desk :=
  ⟨Monitor.create, fun _ =>
    { Monitor.sampleReadings (sampleListing [mydisk]) with cpuinfo := fun _ => .ofText [] }⟩

open DiskPrivate in
theorem prepared_fineDesk : Prepared fineDesk := by
  have hempty : Utf8 [] := utf8_of_ascii (by simp [Utf8.Ascii])
  refine ⟨⟨hempty, hempty⟩, fun _ => ⟨sampleListing [mydisk], [], ⟨rfl, rfl, by decide⟩, ?_, ?_⟩⟩
  · intro row hrow
    have hmem := DfListing.mem_of_mem_devRows hrow
    simp only [sampleListing, List.mem_singleton] at hmem
    rw [hmem]
    exact utf8_of_ascii (by decide +kernel)
  · simp [CpuValid, Stdio.pieces_nil, CPUPrivate.counted]

theorem exists_rounds_netRun_queued :
    ∃ n, netRun sampleFormat sampleSpec fineDesk queuedEvents = some n ∧
      (∃ n', Run.run (netStep sampleFormat sampleSpec) n (List.replicate 4 .serverRound) =
        some n' ∧ Waiting n') ∧
      ¬∃ n', Run.run (netStep sampleFormat sampleSpec) n (List.replicate 5 .serverRound) =
        some n' := by
  have hsome : netRun sampleFormat sampleSpec fineDesk queuedEvents ≠ none := by
    rintro ⟨⟩
  have hbacklog : ∀ n, netRun sampleFormat sampleSpec fineDesk queuedEvents = some n →
      backlog n = 4 := by
    rintro n ⟨⟩
    rfl
  obtain ⟨n, hn⟩ := Option.ne_none_iff_exists'.mp hsome
  obtain ⟨hrounds, hwaiting⟩ := exists_rounds_netRun prepared_fineDesk hn 4
  obtain ⟨n', hn'⟩ := hrounds.mpr (hbacklog n hn).ge
  refine ⟨n, hn, ⟨n', hn', (hwaiting n' hn').mpr (hbacklog n hn).symm⟩, ?_⟩
  rw [(exists_rounds_netRun prepared_fineDesk hn 5).1, hbacklog n hn]
  decide

/-! ### How long a client runs -/

/-- The calls of one client. -/
def NetEvent.isOwn (k : κ) : NetEvent κ → Bool
  | .send j => j = k
  | .recv j => j = k
  | .timeout j => j = k
  | _ => false

/-- Nothing but its own calls moves a client on. -/
theorem call_netStep {e : NetEvent κ} {k : κ} (he : e.isOwn k = false)
    (h : netStep fmt spec n e = some n') :
    (n'.clients k).call = (n.clients k).call ∧
      (n'.clients k).requestNum = (n.clients k).requestNum := by
  have hset : ∀ {m : Net κ} {j : κ} {c : Client}, m.clients = n.clients →
      (j = k → c.call = (n.clients k).call ∧ c.requestNum = (n.clients k).requestNum) →
        ((m.setClient j c).clients k).call = (n.clients k).call ∧
          ((m.setClient j c).clients k).requestNum = (n.clients k).requestNum := by
    intro m j c hm hc
    rcases eq_or_ne k j with rfl | hne
    · simpa using hc rfl
    · rw [clients_setClient_of_ne _ _ hne, hm]
      exact ⟨rfl, rfl⟩
  cases e with
  | send j | recv j | timeout j =>
    obtain ⟨c, -, rfl⟩ := Option.map_eq_some_iff.mp h
    exact hset rfl fun hj => absurd hj (by simpa [NetEvent.isOwn] using he)
  | arrive i =>
    obtain ⟨r, -, rfl⟩ := Option.map_eq_some_iff.mp h
    exact ⟨rfl, rfl⟩
  | loseRequest i | loseReply i =>
    obtain rfl := Option.some.inj h
    exact ⟨rfl, rfl⟩
  | deliver i =>
    obtain ⟨m, -, rfl⟩ := Option.map_eq_some_iff.mp h
    apply hset rfl
    rintro rfl
    rcases Client.deliver_cases m.2 (n.clients m.1) with hc | hc <;>
    · rw [hc]
      exact ⟨rfl, rfl⟩
  | serverRound =>
    rw [netStep, Net.serverRound] at h
    split at h
    · split at h
      · obtain rfl := Option.some.inj h
        apply hset rfl
        rintro rfl
        exact ⟨rfl, rfl⟩
      · obtain rfl := Option.some.inj h
        exact ⟨rfl, rfl⟩
    · cases h

theorem left_netStep {e : NetEvent κ} {k : κ} (hc : (n.clients k).Counted (spec k).kind.requests)
    (h : netStep fmt spec n e = some n') :
    (n'.clients k).Counted (spec k).kind.requests ∧
      (n'.clients k).left (spec k).kind.requests + (if e.isOwn k then 1 else 0) ≤
        (n.clients k).left (spec k).kind.requests := by
  cases he : e.isOwn k with
  | false =>
    obtain ⟨hcall, hnum⟩ := call_netStep he h
    simp only [Client.Counted, Client.left, hcall, hnum] at hc ⊢
    exact ⟨hc, le_rfl⟩
  | true =>
    rw [if_pos rfl]
    cases e with
    | send j =>
      obtain rfl : j = k := by simpa [NetEvent.isOwn] using he
      obtain ⟨c, hsend, rfl⟩ := Option.map_eq_some_iff.mp h
      rw [clients_setClient_self]
      exact Client.left_send hc hsend
    | recv j =>
      obtain rfl : j = k := by simpa [NetEvent.isOwn] using he
      obtain ⟨c, hrecv, rfl⟩ := Option.map_eq_some_iff.mp h
      rw [clients_setClient_self]
      exact Client.left_recv hrecv
    | timeout j =>
      obtain rfl : j = k := by simpa [NetEvent.isOwn] using he
      obtain ⟨c, htimeout, rfl⟩ := Option.map_eq_some_iff.mp h
      rw [clients_setClient_self]
      exact Client.left_timeout htimeout
    | _ => cases he

theorem exists_own_step {k : κ} (hkind : (spec k).kind = .noBlockSocket)
    (hrunning : ¬(n.clients k).Ended) :
    ∃ e n', e.isOwn k = true ∧ netStep fmt spec n e = some n' := by
  cases hcall : (n.clients k).call with
  | send =>
    have hsome : ((n.clients k).send (spec k).text).isSome = true := by simp [Client.send, hcall]
    obtain ⟨c, hc⟩ := Option.isSome_iff_exists.mp hsome
    exact ⟨.send k, _, by simp [NetEvent.isOwn], by rw [netStep, hc]; rfl⟩
  | wait =>
    have hsome : ((n.clients k).timeout (spec k).kind).isSome = true := by
      simp [Client.timeout, hcall, hkind]
    obtain ⟨c, hc⟩ := Option.isSome_iff_exists.mp hsome
    exact ⟨.timeout k, _, by simp [NetEvent.isOwn], by rw [netStep, hc]; rfl⟩
  | done => exact absurd (.inl hcall) hrunning
  | closed => exact absurd (.inr hcall) hrunning

/-- Whatever the server and the network do, the program in `Client.cpp` makes at most twenty calls,
and before its end it can always make the next one. -/
theorem client_ends {args : List Bytes} {addr : Bytes} {k : κ}
    (hmain : clientMain args = some (addr, spec k)) {desk : Desk} {events : List (NetEvent κ)}
    (h : netRun fmt spec desk events = some n) :
    events.countP (NetEvent.isOwn k) ≤ 20 ∧
      ((n.clients k).Ended ∨ ∃ e n', e.isOwn k = true ∧ netStep fmt spec n e = some n') := by
  have hkind := kind_clientMain hmain
  have hstart : ((Net.start desk).clients k).Counted (spec k).kind.requests := by
    rw [hkind]
    exact Nat.succ_pos 9
  obtain ⟨-, hle⟩ := Run.countP_add_le (I := fun u => (u.clients k).Counted (spec k).kind.requests)
    (μ := fun u => (u.clients k).left (spec k).kind.requests) (NetEvent.isOwn k)
    (fun _ _ _ hc hstep => left_netStep hc hstep) hstart h
  have hleft : ((Net.start desk).clients k).left (spec k).kind.requests = 20 := by
    rw [hkind]
    rfl
  refine ⟨by omega, ?_⟩
  by_cases hended : (n.clients k).Ended
  · exact .inl hended
  · exact .inr (exists_own_step hkind hended)

/-- The client without arguments. -/
def defaultSpec : ℕ → ClientSpec := fun _ => ⟨.noBlockSocket, ascii "DisksOverview"⟩

theorem client_ends_default :
    ∃ n, netRun sampleFormat defaultSpec sampleDesk [.send 0, .loseRequest 0, .timeout 0] = some n ∧
      ((n.clients 0).Ended ∨
        ∃ e n', e.isOwn 0 = true ∧ netStep sampleFormat defaultSpec n e = some n') := by
  have hmain : clientMain [] = some (_, defaultSpec 0) := rfl
  have hrun : ∃ n, netRun sampleFormat defaultSpec sampleDesk
      [.send 0, .loseRequest 0, .timeout 0] = some n := ⟨_, rfl⟩
  obtain ⟨n, hn⟩ := hrun
  exact ⟨n, hn, (client_ends hmain hn).2⟩

end Server

end ComputerMonitor
