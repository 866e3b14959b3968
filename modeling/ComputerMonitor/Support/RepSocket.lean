import ComputerMonitor.Support.Bytes

/-! Reply sockets of a messaging library: requests of one or more frames come in one after the other
and each takes one reply. -/

namespace ComputerMonitor

structure Request (κ : Type*) where
  sender : κ
  first : Bytes
  more : List Bytes

def Request.frames {κ : Type*} (r : Request κ) : List Bytes := r.first :: r.more

/-- How far a reply socket is with the request it serves. -/
inductive RepPhase (κ : Type*)
  | ready
  | receiving (sender : κ) (next : Bytes) (more : List Bytes)
  | replying (sender : κ)

/-- After a frame: the frames behind it, or else the reply, come next. -/
def RepPhase.after {κ : Type*} (sender : κ) : List Bytes → RepPhase κ
  | [] => .replying sender
  | next :: more => .receiving sender next more

inductive Received (σ : Type*)
  | frame (data : Bytes) (s : σ)
  | wait
  | efsm

/-- What is known of a reply socket with states in `σ` and peers in `κ`. -/
structure RepSocket (κ σ : Type*) where
  phase : σ → RepPhase κ
  incoming : σ → List (Request κ)
  outgoing : σ → List (κ × Bytes)
  recv : σ → Received σ
  send : Bytes → σ → Option σ
  recv_wait {s} : phase s = .ready → incoming s = [] → recv s = .wait
  recv_ready {s r rs} : phase s = .ready → incoming s = r :: rs → ∃ t, recv s = .frame r.first t ∧
    phase t = .after r.sender r.more ∧ incoming t = rs ∧ outgoing t = outgoing s
  recv_receiving {s k next more} : phase s = .receiving k next more → ∃ t, recv s = .frame next t ∧
    phase t = .after k more ∧ incoming t = incoming s ∧ outgoing t = outgoing s
  recv_replying {s k} : phase s = .replying k → recv s = .efsm
  send_replying {s k} (data : Bytes) : phase s = .replying k → ∃ t, send data s = some t ∧
    phase t = .ready ∧ incoming t = incoming s ∧ outgoing t = outgoing s ++ [(k, data)]
  send_efsm {s} (data : Bytes) : (∀ k, phase s ≠ .replying k) → send data s = none

/-- The socket with nothing but a queue of requests. -/
structure Rep (κ : Type*) where
  phase : RepPhase κ
  incoming : List (Request κ)
  outgoing : List (κ × Bytes)

namespace Rep

variable {κ : Type*}

def ofQueue (requests : List (Request κ)) : Rep κ := ⟨.ready, requests, []⟩

def recv (s : Rep κ) : Received (Rep κ) :=
  match s.phase with
  | .ready =>
    match s.incoming with
    | [] => .wait
    | r :: rs => .frame r.first { s with phase := .after r.sender r.more, incoming := rs }
  | .receiving k next more => .frame next { s with phase := .after k more }
  | .replying _ => .efsm

def send (data : Bytes) (s : Rep κ) : Option (Rep κ) :=
  match s.phase with
  | .ready => none
  | .receiving _ _ _ => none
  | .replying k => some { s with phase := .ready, outgoing := s.outgoing ++ [(k, data)] }

def socket (κ : Type*) : RepSocket κ (Rep κ) where
  phase := phase
  incoming := incoming
  outgoing := outgoing
  recv := recv
  send := send
  recv_wait hp hi := by simp [recv, hp, hi]
  recv_ready hp hi := by simp [recv, hp, hi]
  recv_receiving hp := by simp [recv, hp]
  recv_replying hp := by simp [recv, hp]
  send_replying data hp := by simp [send, hp]
  send_efsm {s} data hp := by
    cases h : s.phase with
    | ready => simp [send, h]
    | receiving k next more => simp [send, h]
    | replying k => exact absurd h (hp k)

end Rep

end ComputerMonitor
