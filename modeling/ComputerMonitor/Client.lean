import ComputerMonitor.Support.Bytes

/-! `Client.cpp` and `raid_monitor_server.h`: the two kinds of clients. -/

namespace ComputerMonitor

inductive ClientKind
  | noBlockSocket
  | requestDataFromRaid
  deriving DecidableEq

/-- How many requests a client makes. -/
def ClientKind.requests : ClientKind → ℕ
  | .noBlockSocket => 10
  | .requestDataFromRaid => 1

structure ClientSpec where
  kind : ClientKind
  text : Bytes

def requestDiskOverviewFromRaid : ClientSpec := ⟨.requestDataFromRaid, Bytes.ascii "DisksOverview"⟩

def requestDisksInfoFromRaid : ClientSpec := ⟨.requestDataFromRaid, Bytes.ascii "DisksInfo"⟩

def requestDiskIoFromRaid : ClientSpec := ⟨.requestDataFromRaid, Bytes.ascii "DiskIO"⟩

/-- The address and the client that `main` makes of its arguments.  One or two of them are too few,
and what happens then is undefined. -/
def clientMain : List Bytes → Option (Bytes × ClientSpec)
  | [] => some (Bytes.ascii "tcp://127.0.0.1:20777", ⟨.noBlockSocket, Bytes.ascii "DisksOverview"⟩)
  | ip :: port :: msg :: _ =>
    some (Bytes.ascii "tcp://" ++ ip ++ Bytes.ascii ":" ++ port, ⟨.noBlockSocket, msg⟩)
  | _ => none

theorem kind_clientMain {args : List Bytes} {addr : Bytes} {spec : ClientSpec}
    (h : clientMain args = some (addr, spec)) : spec.kind = .noBlockSocket := by
  unfold clientMain at h
  split at h <;> cases h <;> rfl

/-- Where a client stands: before a `send`, in the `poll` or `recv` behind it, at its end, or at its
end after a timeout. -/
inductive ClientCall
  | send
  | wait
  | done
  | closed
  deriving DecidableEq

inductive ClientEvent
  | sent (text : Bytes)
  | answered (data : Bytes)
  | took (data : Bytes)
  | timedOut

structure Client where
  call : ClientCall
  requestNum : ℕ
  /-- What the socket holds for the next `recv`. -/
  inbox : List Bytes
  /-- What has happened to the client's requests, on its own side and, where they are answered, on
  the server's. -/
  history : List ClientEvent

namespace Client

def start : Client := ⟨.send, 0, [], []⟩

def send (text : Bytes) (c : Client) : Option Client :=
  match c.call with
  | .send => some { c with
      call := .wait, requestNum := c.requestNum + 1, history := c.history ++ [.sent text] }
  | _ => none

/-- A reply is there: it is taken, and the loop goes on while `requestNum` is below the limit. -/
def recv (limit : ℕ) (c : Client) : Option Client :=
  match c.call, c.inbox with
  | .wait, data :: inbox => some { c with
      call := if c.requestNum < limit then .send else .done
      inbox := inbox
      history := c.history ++ [.took data] }
  | _, _ => none

/-- Only `no_block_socket` gives up, and closes its socket. -/
def timeout (kind : ClientKind) (c : Client) : Option Client :=
  match c.call, kind with
  | .wait, .noBlockSocket => some { c with
      call := .closed, inbox := [], history := c.history ++ [.timedOut] }
  | _, _ => none

/-- The socket is gone once the client is at its end. -/
def deliver (data : Bytes) (c : Client) : Client :=
  match c.call with
  | .send => { c with inbox := c.inbox ++ [data] }
  | .wait => { c with inbox := c.inbox ++ [data] }
  | .done => c
  | .closed => c

def note (data : Bytes) (c : Client) : Client := { c with history := c.history ++ [.answered data] }

theorem send_eq_some {text : Bytes} {c c' : Client} (h : c.send text = some c') :
    c.call = .send ∧ c' = { c with
      call := .wait, requestNum := c.requestNum + 1, history := c.history ++ [.sent text] } := by
  rw [send] at h
  split at h
  · exact ⟨‹_›, (Option.some.inj h).symm⟩
  · cases h

theorem recv_eq_some {limit : ℕ} {c c' : Client} (h : c.recv limit = some c') :
    ∃ data inbox, c.call = .wait ∧ c.inbox = data :: inbox ∧ c' = { c with
      call := if c.requestNum < limit then .send else .done
      inbox := inbox
      history := c.history ++ [.took data] } := by
  rw [recv] at h
  split at h
  · exact ⟨_, _, ‹_›, ‹_›, (Option.some.inj h).symm⟩
  · cases h

theorem timeout_eq_some {kind : ClientKind} {c c' : Client} (h : c.timeout kind = some c') :
    kind = .noBlockSocket ∧ c.call = .wait ∧ c' = { c with
      call := .closed, inbox := [], history := c.history ++ [.timedOut] } := by
  unfold timeout at h
  split at h
  · exact ⟨rfl, ‹_›, (Option.some.inj h).symm⟩
  · cases h

/-- Delivery changes nothing but the inbox, which gets the message or not. -/
theorem deliver_cases (data : Bytes) (c : Client) :
    c.deliver data = { c with inbox := c.inbox ++ [data] } ∨ c.deliver data = c := by
  cases h : c.call <;> simp [deliver, h]

end Client

end ComputerMonitor
