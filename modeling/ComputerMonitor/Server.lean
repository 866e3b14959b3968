import ComputerMonitor.Monitor
import ComputerMonitor.Support.Loop
import ComputerMonitor.Support.RepSocket

/-! `main.cpp`: the documents logged at the start and the loop that answers requests. -/

namespace ComputerMonitor

open Bytes

namespace Server

inductive Command
  | requestBaseInfo
  | disksOverview
  | disksInfo
  | diskIO
  deriving DecidableEq

def Command.text : Command → Bytes
  | .requestBaseInfo => ascii "RequestBaseInfo"
  | .disksOverview => ascii "DisksOverview"
  | .disksInfo => ascii "DisksInfo"
  | Command.diskIO => ascii "DiskIO"

/-- The branches of the loop; `none` is the last `else`. -/
def dispatch (request : Bytes) : Option Command :=
  if request = ascii "RequestBaseInfo" then some .requestBaseInfo
  else if request = ascii "DisksOverview" then some .disksOverview
  else if request = ascii "DisksInfo" then some .disksInfo
  else if request = ascii "DiskIO" then some Command.diskIO
  else none

theorem dispatch_eq_some_iff {request : Bytes} {c : Command} :
    dispatch request = some c ↔ request = c.text := by
  constructor
  · intro h
    rw [dispatch] at h
    split_ifs at h <;> cases h <;> assumption
  · rintro rfl
    cases c <;> decide

theorem dispatch_text (c : Command) : dispatch c.text = some c := dispatch_eq_some_iff.mpr rfl

theorem dispatch_eq_none_iff {request : Bytes} :
    dispatch request = none ↔ ∀ c : Command, request ≠ c.text := by
  rw [Option.eq_none_iff_forall_ne_some]
  exact forall_congr' fun c => not_congr dispatch_eq_some_iff

/-- `zmq::buffer` of a literal includes its terminating NUL. -/
def invalidRequest : Bytes := ascii "invalid request" ++ [0]

/-! ### The loop, over any socket and any way to run the commands -/

section Loop

variable {κ σ μ : Type*}

/-- The data sent for a request; `none` when running the command throws. -/
def answer (run : Command → μ → Option (Bytes × μ)) (request : Bytes) (m : μ) :
    Option (Bytes × μ) :=
  match dispatch request with
  | some c => run c m
  | none => some (invalidRequest, m)

inductive Event
  | recv (data : Bytes)
  | send (data : Bytes)

/-- The call the loop has come to. -/
inductive Call
  | recv
  | send (data : Bytes)

structure State (σ μ : Type*) where
  socket : σ
  monitor : μ
  call : Call
  log : List Event

/-- How the loop stops: in a `recv` without a request, or with an exception that nothing catches. -/
inductive Outcome (σ μ : Type*)
  | waiting (s : State σ μ)
  | exception (s : State σ μ)

def step (S : RepSocket κ σ) (run : Command → μ → Option (Bytes × μ)) (s : State σ μ) :
    State σ μ ⊕ Outcome σ μ :=
  match s.call with
  | .recv =>
    match S.recv s.socket with
    | .frame request socket =>
      match answer run request s.monitor with
      | some (data, monitor) =>
        .inl { socket, monitor, call := .send data, log := s.log ++ [.recv request] }
      | none => .inr (.exception s)
    | .wait => .inr (.waiting s)
    | .efsm => .inr (.exception s)
  | .send data =>
    match S.send data s.socket with
    | some socket => .inl { s with socket, call := .recv, log := s.log ++ [.send data] }
    | none => .inr (.exception s)

def start (socket : σ) (monitor : μ) : State σ μ := ⟨socket, monitor, .recv, []⟩

end Loop

/-! ### The four commands -/

/-- The monitor, and what the requests still to come will find. -/
structure Desk where
  monitor : Monitor
  readings : ℕ → Readings

/-- The next request finds what it finds. -/
def Desk.next (d : Desk) (monitor : Monitor) : Desk := ⟨monitor, fun n => d.readings (n + 1)⟩

def document : Command → Monitor → Readings → Option (Json × Monitor)
  | .requestBaseInfo, m, r => m.getInfoByJson r
  | .disksOverview, m, r => (Monitor.diskInfoOverview r).map fun j => (j, m)
  | .disksInfo, m, r => (Monitor.disksInfo r).map fun j => (j, m)
  | Command.diskIO, m, r => (Monitor.disksIO r).map fun j => (j, m)

/-- One branch of the loop up to its `send`. -/
def reply (fmt : Json.FloatFormat) (c : Command) (d : Desk) : Option (Bytes × Desk) := do
  let (j, m) ← document c d.monitor (d.readings 0)
  let data ← j.dump fmt
  return (data, d.next m)

/-- The three documents that are logged before the loop. -/
def startup (fmt : Json.FloatFormat) (r : Readings) : Option Monitor := do
  let memory ← Monitor.getMemory r
  let _ ← memory.dump fmt
  let disk ← Monitor.getDisk r
  let _ ← disk.dump fmt
  let (cpu, m) ← Monitor.create.getCPU r
  let _ ← cpu.dump fmt
  return m

/-- Whole numbers as the library prints them. -/
def sampleFormat : Json.FloatFormat where
  text := fun q => (if q < 0 then ascii "-" else []) ++ decimal q.num.natAbs ++ ascii ".0"
  head := by
    intro q
    by_cases hq : q < 0
    · exact ⟨0x2d, by simp [hq, ascii], .inl rfl⟩
    · obtain ⟨b, hb, hdigit⟩ := Json.head_decimal q.num.natAbs
      exact ⟨b, by simp [hq, List.head?_append, Option.mem_def.mp hb], .inr hdigit⟩

end Server

end ComputerMonitor
