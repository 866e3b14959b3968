import ComputerMonitor.Serializer.Numbers
import ComputerMonitor.Support.Simulation

/-! What the serializer writes for a string.  Its array is filled many times over a long string, and
never beyond its end. -/

namespace ComputerMonitor

open Bytes

namespace Serializer

namespace StringState

/-- Everything so far, whether it is in the output or still in the array. -/
def written (e : StringState) : Json.Escaped :=
  ⟨e.codepoint, e.state, e.serializer.out ++ e.serializer.stringBuffer.bytes.take e.bytes⟩

/-- From `e` to `u`, `t` has been put into the array. -/
structure Adds (t : Bytes) (e u : StringState) : Prop where
  written : u.written = { e.written with out := e.written.out ++ t }
  bytes : u.bytes = e.bytes + t.length

theorem Adds.refl (e : StringState) : Adds [] e e := ⟨by simp, rfl⟩

theorem Adds.trans {t t' : Bytes} {e u v : StringState} (h : Adds t e u) (h' : Adds t' u v) :
    Adds (t ++ t') e v :=
  ⟨by rw [h'.written, h.written, List.append_assoc],
    by rw [h'.bytes, h.bytes, List.length_append, Nat.add_assoc]⟩

theorem exists_put {e : StringState} (h : e.bytes < 512) (c : UInt8) :
    ∃ u, e.put c = .ok u ∧ Adds [c] e u := by
  have hsize := e.serializer.stringBuffer.size
  have hlt : e.bytes < e.serializer.stringBuffer.bytes.length := by omega
  have htake : (e.serializer.stringBuffer.bytes.take e.bytes).length = e.bytes := by
    rw [List.length_take]
    omega
  have hsplit := (List.take_append_drop e.bytes e.serializer.stringBuffer.bytes).symm
  rw [List.drop_eq_getElem_cons hlt] at hsplit
  obtain ⟨b, hb, hbytes⟩ := Buffer.exists_put _ hsplit c
  rw [htake] at hb
  refine ⟨_, by rw [put, hb, Except.map], ?_, rfl⟩
  have hnew : b.bytes.take (e.bytes + 1) = e.serializer.stringBuffer.bytes.take e.bytes ++ [c] := by
    rw [hbytes, List.append_cons, List.take_left' (by simp [htake])]
  simp only [written, hnew, List.append_assoc]

theorem exists_puts {t : Bytes} {e : StringState} (h : e.bytes + t.length ≤ 512) :
    ∃ u, e.puts t = .ok u ∧ Adds t e u := by
  induction t generalizing e with
  | nil => exact ⟨e, rfl, .refl e⟩
  | cons c t ih =>
    rw [List.length_cons] at h
    obtain ⟨u, hu, hadds⟩ := exists_put (by omega : e.bytes < 512) c
    have hbytes : u.bytes = e.bytes + 1 := hadds.bytes
    obtain ⟨v, hv, hadds'⟩ := ih (by omega : u.bytes + t.length ≤ 512)
    exact ⟨v, by rw [puts, List.foldlM_cons, hu]; exact hv, hadds.trans hadds'⟩

/-- The NUL of `snprintf` is given up again. -/
theorem exists_puts_nul {t : Bytes} {e : StringState} (h : e.bytes + t.length + 1 < 512) :
    ∃ u, (e.puts (t ++ [0])).map (fun e => { e with bytes := e.bytes - 1 }) = .ok u ∧
      Adds t e u := by
  obtain ⟨u, hu, hadds⟩ :=
    exists_puts (by rw [List.length_append, List.length_singleton]; omega :
      e.bytes + (t ++ [0]).length ≤ 512)
  have hbytes := hadds.bytes
  rw [List.length_append, List.length_singleton] at hbytes
  have hsize := u.serializer.stringBuffer.size
  have hne : u.serializer.stringBuffer.bytes.take u.bytes ≠ [] := by
    rw [← List.length_pos_iff, List.length_take]
    omega
  have hlast : (u.written.out).dropLast =
      u.serializer.out ++ u.serializer.stringBuffer.bytes.take (u.bytes - 1) := by
    rw [written, List.dropLast_append_of_ne_nil hne, List.dropLast_take (by omega)]
  have hout : (u.written.out).dropLast = e.written.out ++ t := by
    rw [hadds.written, ← List.append_assoc, List.dropLast_concat]
  have hcodepoint : u.codepoint = e.codepoint := congrArg Json.Escaped.codepoint hadds.written
  have hstate : u.state = e.state := congrArg Json.Escaped.state hadds.written
  refine ⟨{ u with bytes := u.bytes - 1 }, by rw [hu, Except.map], ?_, by simp; omega⟩
  change Json.Escaped.mk u.codepoint u.state _ = ⟨e.codepoint, e.state, _⟩
  rw [← hlast, hout, hcodepoint, hstate]

theorem exists_putCodepoint {e : StringState} (h : e.bytes ≤ 502) (codepoint : UInt32)
    (byte : UInt8) :
    ∃ u, e.putCodepoint codepoint byte = .ok u ∧ Adds (Json.escape codepoint byte) e u := by
  have htwo : ∀ t : Bytes, t.length = 2 → ∃ u, e.puts t = .ok u ∧ Adds t e u :=
    fun t ht => exists_puts (by omega)
  have hsix : (Json.unicodeEscape codepoint).length = 6 := rfl
  rw [putCodepoint, Json.escape]
  split_ifs
  all_goals first
    | exact htwo _ (by decide)
    | exact exists_puts_nul (by omega)
    | exact exists_put (by omega : e.bytes < 512) byte

theorem length_escape_le (codepoint : UInt32) (byte : UInt8) :
    (Json.escape codepoint byte).length ≤ 6 := by
  rw [Json.escape]
  split_ifs <;> simp [Json.unicodeEscape, ascii]

theorem exists_flush {e : StringState} (h : e.bytes ≤ 512) :
    ∃ u, e.flush = .ok u ∧ u.written = e.written ∧ u.bytes ≤ 499 := by
  by_cases hlt : 512 - e.bytes < 13
  · exact ⟨_, by rw [flush, if_pos hlt]; rfl, by simp [written], by simp⟩
  · exact ⟨e, by rw [flush, if_neg hlt], rfl, by omega⟩

/-! ### The room in the array -/

/-- How far the array can be filled in a state of the automaton. -/
def room (state : UInt8) : ℕ :=
  if state = Utf8.accept then 499 else if state = 2 then 502 else if state ≤ 5 then 501 else 500

theorem room_le (state : UInt8) : room state ≤ 502 := by
  rw [room]
  split_ifs <;> decide

/-- Every byte inside a sequence has its place. -/
theorem room_next {state byte : UInt8} (hstate : state ≤ 8)
    (haccept : Utf8.next state byte ≠ Utf8.accept) (hreject : Utf8.next state byte ≠ Utf8.reject) :
    room state + 1 ≤ room (Utf8.next state byte) := by
  have hpos : ∀ t : UInt8, t ≠ Utf8.accept → 500 ≤ room t := by
    intro t ht
    rw [room, if_neg ht]
    split_ifs <;> decide
  have hif : ∀ (p : Prop) [Decidable p] (n : ℕ) (t : UInt8), n ≤ room t →
      (if p then t else 1) ≠ Utf8.reject → n ≤ room (if p then t else 1) := by
    intro p _ n t hn hne
    by_cases hp : p
    · rwa [if_pos hp]
    · exact absurd (if_neg hp) hne
  rcases Utf8.state_cases state hstate with rfl | rfl | rfl | rfl | rfl | rfl | rfl | rfl | rfl
  · exact hpos _ haccept
  · exact absurd (Utf8.next_reject byte) hreject
  · rw [Utf8.next_two] at haccept hreject
    by_cases htail : IsTail byte
    · exact absurd (if_pos htail) haccept
    · exact absurd (if_neg htail) hreject
  · rw [Utf8.next_three] at hreject ⊢
    exact hif _ _ _ (by decide) hreject
  · rw [Utf8.next_four] at hreject ⊢
    exact hif _ _ _ (by decide) hreject
  · rw [Utf8.next_five] at hreject ⊢
    exact hif _ _ _ (by decide) hreject
  · rw [Utf8.next_six] at hreject ⊢
    exact hif _ _ _ (by decide) hreject
  · rw [Utf8.next_seven] at hreject ⊢
    exact hif _ _ _ (by decide) hreject
  · rw [Utf8.next_eight] at hreject ⊢
    exact hif _ _ _ (by decide) hreject

structure Room (e : StringState) : Prop where
  state : e.state ≤ 8
  bytes : e.bytes ≤ room e.state

/-- One byte, in the array and without it. -/
theorem Room.step_cases {e : StringState} (h : Room e) (byte : UInt8) :
    (e.step byte = .error .typeError ∧ Json.escapeStep e.written byte = none) ∨
      ∃ u, e.step byte = .ok u ∧ Json.escapeStep e.written byte = some u.written ∧ Room u := by
  have hle := room_le e.state
  have hbytes := h.bytes
  let codepoint := Utf8.codepoint e.state e.codepoint byte
  let state := Utf8.next e.state byte
  have hstate8 : state ≤ 8 := Utf8.next_le h.state byte
  by_cases haccept : state = Utf8.accept
  · right
    obtain ⟨u, hu, hadds⟩ := exists_putCodepoint (e := { e with codepoint, state })
      (hbytes.trans hle) codepoint byte
    have hlength : u.bytes = e.bytes + (Json.escape codepoint byte).length := hadds.bytes
    have hshort := length_escape_le codepoint byte
    obtain ⟨v, hv, hwritten, hroom⟩ := exists_flush (by omega : u.bytes ≤ 512)
    have hv8 : v.state = state :=
      congrArg Json.Escaped.state (hwritten.trans hadds.written)
    refine ⟨v, (if_pos haccept).trans (by rw [hu, Except.bind, hv]), ?_, ?_⟩
    · exact (if_pos haccept).trans (congrArg some (hwritten.trans hadds.written).symm)
    · refine ⟨hv8 ▸ hstate8, ?_⟩
      rw [hv8, haccept]
      exact hroom
  · by_cases hreject : state = Utf8.reject
    · left
      exact ⟨(if_neg haccept).trans (if_pos hreject), (if_neg haccept).trans (if_pos hreject)⟩
    · right
      obtain ⟨u, hu, hadds⟩ := exists_put (e := { e with codepoint, state })
        (by omega : e.bytes < 512) byte
      refine ⟨u, (if_neg haccept).trans ((if_neg hreject).trans hu), ?_, ?_⟩
      · exact ((if_neg haccept).trans (if_neg hreject)).trans (congrArg some hadds.written.symm)
      · have hu8 : u.state = state := congrArg Json.Escaped.state hadds.written
        have hone : u.bytes = e.bytes + 1 := hadds.bytes
        have hroom : room e.state + 1 ≤ room state := room_next h.state haccept hreject
        refine ⟨hu8 ▸ hstate8, ?_⟩
        rw [hu8, hone]
        omega

/-- A whole string.  The automaton is the only thing that can stop it. -/
theorem Room.map_written_foldlM {e : StringState} (h : Room e) (t : Bytes) :
    (t.foldlM step e).map written =
      Fault.typeError.orElse (t.foldlM Json.escapeStep e.written) := by
  induction t generalizing e with
  | nil => rfl
  | cons byte t ih =>
    rw [List.foldlM_cons, List.foldlM_cons]
    rcases h.step_cases byte with ⟨hstep, hspec⟩ | ⟨u, hstep, hspec, hroom⟩
    · rw [hstep, hspec]
      rfl
    · rw [hstep, hspec]
      exact ih hroom

end StringState

/-- What is behind `p`. -/
def behind (p : Bytes) (e : Json.Escaped) : Json.Escaped := { e with out := p ++ e.out }

theorem escapeStep_behind (p : Bytes) (e : Json.Escaped) (byte : UInt8) :
    (Json.escapeStep e byte).map (behind p) = Json.escapeStep (behind p e) byte := by
  by_cases haccept : Utf8.next e.state byte = Utf8.accept
  · simp [Json.escapeStep, behind, haccept]
  · by_cases hreject : Utf8.next e.state byte = Utf8.reject
    · simp [Json.escapeStep, behind, hreject, Utf8.accept, Utf8.reject]
    · simp [Json.escapeStep, behind, haccept, hreject]

/-- A whole string behind the output so far. -/
theorem map_written_foldlM (t : Bytes) (s : Serializer) :
    (t.foldlM StringState.step ⟨0, Utf8.accept, 0, s⟩).map StringState.written =
      Fault.typeError.orElse
        ((t.foldlM Json.escapeStep ⟨0, Utf8.accept, []⟩).map (behind s.out)) := by
  have hroom : StringState.Room ⟨0, Utf8.accept, 0, s⟩ :=
    ⟨by simp [Utf8.accept], Nat.zero_le _⟩
  have hwritten : StringState.written ⟨0, Utf8.accept, 0, s⟩ = behind s.out ⟨0, Utf8.accept, []⟩ :=
    rfl
  have hbehind : (t.foldlM Json.escapeStep ⟨0, Utf8.accept, []⟩).map (behind s.out) =
      t.foldlM Json.escapeStep (behind s.out ⟨0, Utf8.accept, []⟩) :=
    Run.map_run (escapeStep_behind s.out) _ t
  rw [hroom.map_written_foldlM, hwritten, hbehind]

/-- What is still in the array is written at the end. -/
theorem map_out_rest (e : StringState) :
    (if 0 < e.bytes then
      writeCharacters (e.serializer.stringBuffer.bytes.take e.bytes) e.serializer
    else return e.serializer).map out = .ok e.written.out := by
  split_ifs with h
  · rfl
  · rw [StringState.written, Nat.eq_zero_of_not_pos h, List.take_zero, List.append_nil]
    rfl

/-- Filling the array and writing it out again and again makes the text of the string, and a byte
that is not UTF-8 is found in both. -/
theorem emits_dumpEscaped (t : Bytes) : Emits (dumpEscaped t) (Json.dumpEscaped t) := by
  intro s
  rw [dumpEscaped, Json.dumpEscaped]
  rcases Fault.cases_of_map_eq (map_written_foldlM t s) with ⟨hu, hv⟩ | ⟨u, v, hu, hv, hwritten⟩
  · rw [hu, hv]
    rfl
  · have hstate : u.state = v.state := congrArg Json.Escaped.state hwritten
    have hout : u.written.out = s.out ++ v.out := congrArg Json.Escaped.out hwritten
    rw [hu, hv, Fault.ok_bind, Option.bind_some, hstate]
    by_cases haccept : v.state = Utf8.accept
    · rw [if_pos haccept, if_pos haccept, map_out_rest, hout]
      rfl
    · rw [if_neg haccept, if_neg haccept]
      rfl

end Serializer

end ComputerMonitor
