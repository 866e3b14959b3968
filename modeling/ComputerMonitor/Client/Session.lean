import ComputerMonitor.Client
import Mathlib.Data.Multiset.Basic

/-! The session of one client with a server: what its requests and replies go through, wherever the
messages are. -/

namespace ComputerMonitor

/-- A client, the number of its requests that are on their way or being served, and the replies on
their way to it. -/
structure Session where
  call : ClientCall
  requestNum : ℕ
  history : List ClientEvent
  pending : ℕ
  replies : Multiset Bytes

namespace Session

def start : Session := ⟨.send, 0, [], 0, 0⟩

/-- One step of a session.  Messages may be lost on the way. -/
inductive Move (spec : ClientSpec) (Answer : Bytes → Prop) : Session → Session → Prop
  | lose {s : Session} {p : ℕ} {rs : Multiset Bytes} (hp : p ≤ s.pending) (hrs : rs ≤ s.replies) :
      Move spec Answer s { s with pending := p, replies := rs }
  | send {s : Session} (h : s.call = .send) :
      Move spec Answer s { s with
        call := .wait
        requestNum := s.requestNum + 1
        history := s.history ++ [.sent spec.text]
        pending := s.pending + 1 }
  | answer {s : Session} {p : ℕ} {data : Bytes} (ha : Answer data) (hp : s.pending = p + 1) :
      Move spec Answer s { s with
        history := s.history ++ [.answered data], pending := p, replies := data ::ₘ s.replies }
  | take {s : Session} {data : Bytes} {rs : Multiset Bytes} (h : s.call = .wait)
      (hrs : s.replies = data ::ₘ rs) :
      Move spec Answer s { s with
        call := if s.requestNum < spec.kind.requests then .send else .done
        history := s.history ++ [.took data]
        replies := rs }
  | timeout {s : Session} {rs : Multiset Bytes} (hkind : spec.kind = .noBlockSocket)
      (h : s.call = .wait) (hrs : rs ≤ s.replies) :
      Move spec Answer s { s with
        call := .closed, history := s.history ++ [.timedOut], replies := rs }

theorem Move.refl {spec : ClientSpec} {Answer : Bytes → Prop} (s : Session) :
    Move spec Answer s s :=
  Move.lose le_rfl le_rfl

/-- A request that was answered and whose answer was taken. -/
def exchange (text data : Bytes) : List ClientEvent := [.sent text, .answered data, .took data]

/-- What follows the last complete exchange. -/
inductive Tail
  | idle
  | sent
  | answered (data : Bytes)
  | timedOut
  | answeredTimedOut (data : Bytes)
  | timedOutAnswered (data : Bytes)

namespace Tail

def events (text : Bytes) : Tail → List ClientEvent
  | .idle => []
  | .sent => [.sent text]
  | .answered data => [.sent text, .answered data]
  | .timedOut => [.sent text, .timedOut]
  | .answeredTimedOut data => [.sent text, .answered data, .timedOut]
  | .timedOutAnswered data => [.sent text, .timedOut, .answered data]

def answers : Tail → List Bytes
  | .idle => []
  | .sent => []
  | .answered data => [data]
  | .timedOut => []
  | .answeredTimedOut data => [data]
  | .timedOutAnswered data => [data]

def requests : Tail → ℕ
  | .idle => 0
  | .sent => 1
  | .answered _ => 1
  | .timedOut => 1
  | .answeredTimedOut _ => 1
  | .timedOutAnswered _ => 1

/-- How the rest of the session goes with the tail of its history. -/
def Fits (limit rounds : ℕ) (s : Session) : Tail → Prop
  | .idle => (s.call = .send ∧ rounds < limit ∨ s.call = .done) ∧ s.pending = 0 ∧ s.replies = 0
  | .sent => s.call = .wait ∧ s.pending ≤ 1 ∧ s.replies = 0
  | .answered data => s.call = .wait ∧ s.pending = 0 ∧ s.replies ≤ {data}
  | .timedOut => s.call = .closed ∧ s.pending ≤ 1
  | .answeredTimedOut _ => s.call = .closed ∧ s.pending = 0
  | .timedOutAnswered _ => s.call = .closed ∧ s.pending = 0

end Tail

/-- The history is a sequence of complete exchanges and a tail, with an answer of the server to the
client's text in each. -/
structure History (spec : ClientSpec) (Answer : Bytes → Prop) (history : List ClientEvent)
    (answers : List Bytes) (tail : Tail) : Prop where
  eq : history = answers.flatMap (exchange spec.text) ++ tail.events spec.text
  answer : ∀ data ∈ answers ++ tail.answers, Answer data
  limit : answers.length + tail.requests ≤ spec.kind.requests

def Orderly (spec : ClientSpec) (Answer : Bytes → Prop) (history : List ClientEvent) : Prop :=
  ∃ answers tail, History spec Answer history answers tail

/-- The invariant of a session. -/
def Inv (spec : ClientSpec) (Answer : Bytes → Prop) (s : Session) : Prop :=
  ∃ answers tail, History spec Answer s.history answers tail ∧
    s.requestNum = answers.length + tail.requests ∧ tail.Fits spec.kind.requests answers.length s

variable {spec : ClientSpec} {Answer : Bytes → Prop}

theorem inv_start : Inv spec Answer start := by
  refine ⟨[], .idle, ⟨rfl, by simp [Tail.answers], by simp [Tail.requests]⟩, rfl, .inl ⟨rfl, ?_⟩,
    rfl, rfl⟩
  cases spec.kind <;> decide

theorem Tail.Fits.lose {limit rounds : ℕ} {s : Session} {tail : Tail}
    (h : tail.Fits limit rounds s) {p : ℕ} {rs : Multiset Bytes} (hp : p ≤ s.pending)
    (hrs : rs ≤ s.replies) :
    tail.Fits limit rounds { s with pending := p, replies := rs } := by
  cases tail with
  | idle =>
    obtain ⟨hcall, hpending, hreplies⟩ := h
    rw [hpending] at hp
    rw [hreplies] at hrs
    exact ⟨hcall, Nat.le_zero.mp hp, Multiset.le_zero.mp hrs⟩
  | sent =>
    obtain ⟨hcall, hpending, hreplies⟩ := h
    rw [hreplies] at hrs
    exact ⟨hcall, hp.trans hpending, Multiset.le_zero.mp hrs⟩
  | answered data =>
    obtain ⟨hcall, hpending, hreplies⟩ := h
    rw [hpending] at hp
    exact ⟨hcall, Nat.le_zero.mp hp, hrs.trans hreplies⟩
  | timedOut => exact ⟨h.1, hp.trans h.2⟩
  | answeredTimedOut data =>
    rw [h.2] at hp
    exact ⟨h.1, Nat.le_zero.mp hp⟩
  | timedOutAnswered data =>
    rw [h.2] at hp
    exact ⟨h.1, Nat.le_zero.mp hp⟩

/-- A client sends only between exchanges. -/
theorem inv_send {s : Session} (hs : Inv spec Answer s) (h : s.call = .send) :
    Inv spec Answer { s with
      call := .wait
      requestNum := s.requestNum + 1
      history := s.history ++ [.sent spec.text]
      pending := s.pending + 1 } := by
  obtain ⟨answers, tail, hhist, hnum, hfits⟩ := hs
  cases tail with
  | idle =>
    obtain ⟨hcall, hpending, hreplies⟩ := hfits
    have hlt : answers.length < spec.kind.requests := by simpa [h] using hcall
    refine ⟨answers, .sent, ⟨?_, hhist.answer, hlt⟩, ?_, rfl, ?_, hreplies⟩
    · simp [hhist.eq, Tail.events]
    · simp [hnum, Tail.requests]
    · simp [hpending]
  | sent => cases h.symm.trans hfits.1
  | answered data => cases h.symm.trans hfits.1
  | timedOut => cases h.symm.trans hfits.1
  | answeredTimedOut data => cases h.symm.trans hfits.1
  | timedOutAnswered data => cases h.symm.trans hfits.1

/-- Only the one pending request can be answered. -/
theorem inv_answer {s : Session} (hs : Inv spec Answer s) {p : ℕ} {data : Bytes}
    (ha : Answer data) (hp : s.pending = p + 1) :
    Inv spec Answer { s with
      history := s.history ++ [.answered data], pending := p, replies := data ::ₘ s.replies } := by
  obtain ⟨answers, tail, hhist, hnum, hfits⟩ := hs
  have hold : ∀ a ∈ answers, Answer a := fun a ha => hhist.answer a (by simp [ha])
  have hanswer : ∀ a ∈ answers ++ [data], Answer a := by
    simpa [or_imp, forall_and] using ⟨hold, ha⟩
  cases tail with
  | idle =>
    obtain ⟨-, hpending, -⟩ := hfits
    omega
  | sent =>
    obtain ⟨hcall, hpending, hreplies⟩ := hfits
    refine ⟨answers, .answered data, ⟨?_, hanswer, hhist.limit⟩, hnum, hcall, ?_, ?_⟩
    · simp [hhist.eq, Tail.events]
    · simp only
      omega
    · simp [hreplies]
  | answered data' =>
    obtain ⟨-, hpending, -⟩ := hfits
    omega
  | timedOut =>
    obtain ⟨hcall, hpending⟩ := hfits
    refine ⟨answers, .timedOutAnswered data, ⟨?_, hanswer, hhist.limit⟩, hnum, hcall, ?_⟩
    · simp [hhist.eq, Tail.events]
    · simp only
      omega
  | answeredTimedOut data' =>
    obtain ⟨-, hpending⟩ := hfits
    omega
  | timedOutAnswered data' =>
    obtain ⟨-, hpending⟩ := hfits
    omega

/-- A client takes nothing but the answer to its last request, which completes an exchange. -/
theorem inv_take {s : Session} (hs : Inv spec Answer s) {data : Bytes} {rs : Multiset Bytes}
    (h : s.call = .wait) (hrs : s.replies = data ::ₘ rs) :
    Inv spec Answer { s with
      call := if s.requestNum < spec.kind.requests then .send else .done
      history := s.history ++ [.took data]
      replies := rs } := by
  obtain ⟨answers, tail, hhist, hnum, hfits⟩ := hs
  cases tail with
  | idle =>
    obtain ⟨-, -, hreplies⟩ := hfits
    simp [hreplies] at hrs
  | sent =>
    obtain ⟨-, -, hreplies⟩ := hfits
    simp [hreplies] at hrs
  | answered data' =>
    obtain ⟨-, hpending, hreplies⟩ := hfits
    rw [hrs] at hreplies
    obtain rfl : data = data' :=
      Multiset.mem_singleton.mp (Multiset.mem_of_le hreplies (Multiset.mem_cons_self data rs))
    have hrest : rs = 0 := by simpa using Multiset.card_le_card hreplies
    simp only [Tail.requests] at hnum
    refine ⟨answers ++ [data], .idle, ⟨?_, ?_, ?_⟩, ?_, ?_, hpending, hrest⟩
    · simp [hhist.eq, Tail.events, exchange]
    · simpa [Tail.answers] using hhist.answer
    · simpa [Tail.requests] using hhist.limit
    · simp [hnum, Tail.requests]
    · by_cases hlt : s.requestNum < spec.kind.requests
      · exact .inl ⟨if_pos hlt, by simpa [← hnum] using hlt⟩
      · exact .inr (if_neg hlt)
  | timedOut => cases h.symm.trans hfits.1
  | answeredTimedOut data => cases h.symm.trans hfits.1
  | timedOutAnswered data => cases h.symm.trans hfits.1

/-- A client that gives up is left at its end. -/
theorem inv_timeout {s : Session} (hs : Inv spec Answer s) {rs : Multiset Bytes}
    (h : s.call = .wait) :
    Inv spec Answer { s with
      call := .closed, history := s.history ++ [.timedOut], replies := rs } := by
  obtain ⟨answers, tail, hhist, hnum, hfits⟩ := hs
  cases tail with
  | idle =>
    obtain ⟨hcall, -⟩ := hfits
    simp [h] at hcall
  | sent =>
    refine ⟨answers, .timedOut, ⟨?_, hhist.answer, hhist.limit⟩, hnum, rfl, hfits.2.1⟩
    simp [hhist.eq, Tail.events]
  | answered data =>
    refine ⟨answers, .answeredTimedOut data, ⟨?_, hhist.answer, hhist.limit⟩, hnum, rfl, hfits.2.1⟩
    simp [hhist.eq, Tail.events]
  | timedOut => cases h.symm.trans hfits.1
  | answeredTimedOut data => cases h.symm.trans hfits.1
  | timedOutAnswered data => cases h.symm.trans hfits.1

theorem inv_move {s t : Session} (hs : Inv spec Answer s) (h : Move spec Answer s t) :
    Inv spec Answer t := by
  cases h with
  | lose hp hrs =>
    obtain ⟨answers, tail, hhist, hnum, hfits⟩ := hs
    exact ⟨answers, tail, hhist, hnum, hfits.lose hp hrs⟩
  | send h => exact inv_send hs h
  | answer ha hp => exact inv_answer hs ha hp
  | take h hrs => exact inv_take hs h hrs
  | timeout _ h _ => exact inv_timeout hs h

theorem Inv.orderly {s : Session} (h : Inv spec Answer s) : Orderly spec Answer s.history := by
  obtain ⟨answers, tail, hhist, -⟩ := h
  exact ⟨answers, tail, hhist⟩

/-- Nothing is left of a request when the next one is made. -/
theorem Inv.idle {s : Session} (h : Inv spec Answer s) (hcall : s.call = .send) :
    s.pending = 0 ∧ s.replies = 0 := by
  obtain ⟨answers, tail, -, -, hfits⟩ := h
  cases tail with
  | idle => exact hfits.2
  | sent => cases hcall.symm.trans hfits.1
  | answered data => cases hcall.symm.trans hfits.1
  | timedOut => cases hcall.symm.trans hfits.1
  | answeredTimedOut data => cases hcall.symm.trans hfits.1
  | timedOutAnswered data => cases hcall.symm.trans hfits.1

/-- Where there is a reply to take, it is the only one and nothing is pending. -/
theorem Inv.only {s : Session} (h : Inv spec Answer s) (hcall : s.call = .wait) {data : Bytes}
    {rs : Multiset Bytes} (hrs : s.replies = data ::ₘ rs) : s.pending = 0 ∧ rs = 0 := by
  obtain ⟨answers, tail, -, -, hfits⟩ := h
  cases tail with
  | idle =>
    obtain ⟨hcall', -⟩ := hfits
    simp [hcall] at hcall'
  | sent =>
    obtain ⟨-, -, hreplies⟩ := hfits
    simp [hrs] at hreplies
  | answered data' =>
    obtain ⟨-, hpending, hreplies⟩ := hfits
    rw [hrs] at hreplies
    exact ⟨hpending, by simpa using Multiset.card_le_card hreplies⟩
  | timedOut => cases hcall.symm.trans hfits.1
  | answeredTimedOut data' => cases hcall.symm.trans hfits.1
  | timedOutAnswered data' => cases hcall.symm.trans hfits.1

/-- There is never more than one request under way. -/
theorem Inv.pending_le {s : Session} (h : Inv spec Answer s) : s.pending ≤ 1 := by
  obtain ⟨answers, tail, -, -, hfits⟩ := h
  cases tail with
  | idle => exact hfits.2.1.le.trans (Nat.zero_le 1)
  | sent => exact hfits.2.1
  | answered data => exact hfits.2.1.le.trans (Nat.zero_le 1)
  | timedOut => exact hfits.2
  | answeredTimedOut data => exact hfits.2.le.trans (Nat.zero_le 1)
  | timedOutAnswered data => exact hfits.2.le.trans (Nat.zero_le 1)

end Session

end ComputerMonitor
