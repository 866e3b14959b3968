import ComputerMonitor.Serializer

/-! What the serializer writes for a number, and that it stays inside its array. -/

namespace ComputerMonitor

open Bytes

namespace Buffer

variable {n : ℕ}

theorem exists_put {buffer : Buffer n} (front : Bytes) {back : Bytes} {a : UInt8}
    (h : buffer.bytes = front ++ a :: back) (c : UInt8) :
    ∃ b : Buffer n, buffer.put front.length c = .ok b ∧ b.bytes = front ++ c :: back := by
  have hsize := buffer.size
  rw [h, List.length_append, List.length_cons] at hsize
  exact ⟨_, if_pos (by omega), by simp [h]⟩

end Buffer

/-- Two computations that agree up to a fault both have a value or neither has. -/
theorem Fault.cases_of_map_eq {α β γ : Type} {fault : Fault} {x : Except Fault α} {r : Option β}
    {f : α → γ} {g : β → γ} (h : x.map f = fault.orElse (r.map g)) :
    (x = .error fault ∧ r = none) ∨ ∃ a b, x = .ok a ∧ r = some b ∧ f a = g b := by
  cases x with
  | error fault' =>
    cases r with
    | none => exact .inl ⟨congrArg Except.error (Except.error.inj h), rfl⟩
    | some b => cases h
  | ok a =>
    cases r with
    | none => cases h
    | some b => exact .inr ⟨a, b, rfl, rfl, Except.ok.inj h⟩

namespace Serializer

/-! ### What is written -/

/-- The output grows by the text, or the serializer throws where there is none.  Nothing else goes
wrong. -/
def Emits (f : Serializer → Except Fault Serializer) (r : Option Bytes) : Prop :=
  ∀ s, (f s).map out = Fault.typeError.orElse (r.map (s.out ++ ·))

theorem emits_ok : Emits .ok (some []) := fun s => congrArg Except.ok (List.append_nil s.out).symm

theorem emits_writeCharacters (t : Bytes) : Emits (writeCharacters t) (some t) := fun _ => rfl

theorem Emits.congr {f : Serializer → Except Fault Serializer} {r r' : Option Bytes} (h : Emits f r)
    (hr : r = r') : Emits f r' := hr ▸ h

theorem Emits.bind {f g : Serializer → Except Fault Serializer} {r r' : Option Bytes}
    (hf : Emits f r) (hg : Emits g r') : Emits (f >=> g) (r.bind fun t => r'.map (t ++ ·)) := by
  intro s
  change ((f s).bind g).map out = _
  rcases Fault.cases_of_map_eq (hf s) with ⟨hfs, rfl⟩ | ⟨u, t, hfs, rfl, hout⟩
  · rw [hfs]
    rfl
  · rw [hfs, Except.bind, hg u, hout]
    cases r' <;> simp

/-! ### Digits -/

theorem decimal_of_lt {n : ℕ} (h : n < 10) : decimal n = [digitByte n] := by
  interval_cases n <;> decide

theorem decimal_div_ten {n : ℕ} (h : 10 ≤ n) :
    decimal n = decimal (n / 10) ++ [digitByte (n % 10)] := by
  have hn : n ≠ 0 := by omega
  have hdiv : n / 10 ≠ 0 := by omega
  rw [decimal, decimal, if_neg hn, if_neg hdiv, Nat.digits_def' (by decide) (by omega)]
  simp

theorem decimal_div_hundred {n : ℕ} (h : 100 ≤ n) :
    decimal n = decimal (n / 100) ++ [digitByte (n % 100 / 10), digitByte (n % 100 % 10)] := by
  have hten : 10 ≤ n / 10 := by omega
  rw [decimal_div_ten (by omega : 10 ≤ n), decimal_div_ten hten, Nat.div_div_eq_div_mul,
    (by omega : n / 10 % 10 = n % 100 / 10), (by omega : n % 10 = n % 100 % 10), List.append_assoc]
  rfl

theorem length_decimal_div_ten {n : ℕ} (h : 10 ≤ n) :
    (decimal n).length = (decimal (n / 10)).length + 1 := by
  rw [decimal_div_ten h, List.length_append, List.length_singleton]

theorem length_decimal_of_lt {n : ℕ} (h : n < 10) : (decimal n).length = 1 := by
  rw [decimal_of_lt h, List.length_singleton]

theorem countStep_eq (x : UInt64) (k : ℕ) :
    countStep (x, k) =
      if x.toNat < 10 then .inr k
      else if x.toNat < 100 then .inr (k + 1)
      else if x.toNat < 1000 then .inr (k + 2)
      else if x.toNat < 10000 then .inr (k + 3)
      else .inl (x / 10000, k + 4) := by
  simp only [countStep, UInt64.lt_iff_toNat_lt]
  rfl

/-- The loop stops at four digits. -/
theorem countStep_of_lt {x : UInt64} (h : x.toNat < 10000) (k : ℕ) :
    countStep (x, k + 1) = .inr (k + (decimal x.toNat).length) := by
  rw [countStep_eq]
  generalize x.toNat = n at h
  split_ifs
  · rw [length_decimal_of_lt (by omega)]
  · rw [length_decimal_div_ten (by omega), length_decimal_of_lt (by omega)]
  · rw [length_decimal_div_ten (by omega), length_decimal_div_ten (by omega),
      length_decimal_of_lt (by omega)]
  · rw [length_decimal_div_ten (by omega), length_decimal_div_ten (by omega),
      length_decimal_div_ten (by omega), length_decimal_of_lt (by omega)]

theorem countStep_of_le {x : UInt64} (h : 10000 ≤ x.toNat) (k : ℕ) :
    countStep (x, k) = .inl (x / 10000, k + 4) := by
  rw [countStep_eq, if_neg (by omega), if_neg (by omega), if_neg (by omega), if_neg (by omega)]

theorem length_decimal_div_myriad {n : ℕ} (h : 10000 ≤ n) :
    (decimal n).length = (decimal (n / 10000)).length + 4 := by
  rw [length_decimal_div_ten (by omega), length_decimal_div_ten (by omega),
    length_decimal_div_ten (by omega), length_decimal_div_ten (by omega)]
  simp only [Nat.div_div_eq_div_mul]

theorem run_countStep (fuel : ℕ) {x : UInt64} (h : x.toNat < 10000 ^ (fuel + 1)) (k : ℕ) :
    Loop.run countStep (fuel + 1) (x, k + 1) = some (k + (decimal x.toNat).length) := by
  induction fuel generalizing x k with
  | zero => rw [Loop.run, countStep_of_lt (by simpa using h)]
  | succ fuel ih =>
    by_cases hx : x.toNat < 10000
    · rw [Loop.run, countStep_of_lt hx]
    · have hdiv : (x / 10000).toNat = x.toNat / 10000 := UInt64.toNat_div x 10000
      have hlt : (x / 10000).toNat < 10000 ^ (fuel + 1) := by
        rw [hdiv]
        exact Nat.div_lt_of_lt_mul (by rwa [← pow_succ'])
      rw [Loop.run, countStep_of_le (not_lt.mp hx)]
      have hrun := ih hlt (k + 4)
      rw [hdiv] at hrun
      rw [length_decimal_div_myriad (not_lt.mp hx), (by omega : k + 1 + 4 = k + 4 + 1)]
      simp only [hrun, Option.some.injEq]
      omega

theorem countDigits_eq (x : UInt64) : countDigits x = .ok (decimal x.toNat).length := by
  have hlt := x.toNat_lt
  rw [countDigits, run_countStep 4 (by omega) 0, Nat.zero_add, Fault.orElse_some]

/-! ### The digits in the array -/

/-- What is written so far is behind the pointer. -/
structure At (front back : Bytes) (s : Cursor) : Prop where
  bytes : s.buffer.bytes = front ++ back
  ptr : s.ptr = front.length

theorem exists_writeBefore {front back : Bytes} {a : UInt8} {s : Cursor}
    (h : At (front ++ [a]) back s) (c : UInt8) :
    ∃ t, s.writeBefore c = .ok t ∧ At front (c :: back) t := by
  have hptr := h.ptr
  rw [List.length_append, List.length_singleton] at hptr
  obtain ⟨b, hb, hbytes⟩ :=
    Buffer.exists_put front (h.bytes.trans (List.append_assoc front [a] back)) c
  refine ⟨⟨b, front.length⟩, ?_, hbytes, rfl⟩
  rw [Cursor.writeBefore, if_pos (by omega), hptr, Nat.add_sub_cancel, hb, Except.map]

theorem exists_writeDigits {front back : Bytes} {a b : UInt8} {s : Cursor}
    (h : At (front ++ [a, b]) back s) {i : ℕ} (hi : i < 100) :
    ∃ t, s.writeDigits i = .ok t ∧
      At front ([digitByte (i / 10), digitByte (i % 10)] ++ back) t := by
  have hget : digitsTo99[i]? = some (digitByte (i / 10), digitByte (i % 10)) := by
    simp [digitsTo99, hi]
  have hsplit : front ++ [a, b] = front ++ [a] ++ [b] := by simp
  obtain ⟨t, ht, hat⟩ := exists_writeBefore (hsplit ▸ h) (digitByte (i % 10))
  obtain ⟨u, hu, hat'⟩ := exists_writeBefore hat (digitByte (i / 10))
  refine ⟨u, ?_, hat'⟩
  simp only [Cursor.writeDigits, hget, Fault.orElse_some, Fault.ok_bind, ht, hu]

theorem exists_writeStep_of_le {v : UInt64} (hv : 100 ≤ v.toNat) {front back : Bytes} {a b : UInt8}
    {s : Cursor} (h : At (front ++ [a, b]) back s) :
    ∃ t, writeStep (s, v) = .inl (t, v / 100) ∧
      At front ([digitByte (v.toNat % 100 / 10), digitByte (v.toNat % 100 % 10)] ++ back) t := by
  have hmod : (v % 100).toNat = v.toNat % 100 := UInt64.toNat_mod v 100
  have hle : 100 ≤ v := UInt64.le_iff_toNat_le.mpr hv
  obtain ⟨t, ht, hat⟩ := exists_writeDigits h (Nat.mod_lt v.toNat (by decide : 0 < 100))
  exact ⟨t, by simp only [writeStep, if_pos hle, hmod, ht], hat⟩

theorem exists_writeStep_of_lt {v : UInt64} (hv : v.toNat < 100) {front mid back : Bytes}
    {s : Cursor} (h : At (front ++ mid) back s) (hmid : mid.length = (decimal v.toNat).length) :
    ∃ t, writeStep (s, v) = .inr (.ok t) ∧ At front (decimal v.toNat ++ back) t := by
  have hle : ¬100 ≤ v := fun hle => not_lt.mpr (UInt64.le_iff_toNat_le.mp hle) hv
  by_cases hten : 10 ≤ v.toNat
  · have hten' : 10 ≤ v := UInt64.le_iff_toNat_le.mpr hten
    rw [length_decimal_div_ten hten, length_decimal_of_lt (by omega)] at hmid
    obtain ⟨a, b, rfl⟩ := List.length_eq_two.mp hmid
    obtain ⟨t, ht, hat⟩ := exists_writeDigits h hv
    refine ⟨t, by simp only [writeStep, if_neg hle, if_pos hten', ht], ?_⟩
    rw [decimal_div_ten hten, decimal_of_lt (by omega)]
    exact hat
  · have hten' : ¬10 ≤ v := fun hle => hten (UInt64.le_iff_toNat_le.mp hle)
    have hdigit : 0x30 + v.toUInt8 = digitByte v.toNat := by
      apply UInt8.toNat_inj.mp
      simp [digitByte]
    rw [length_decimal_of_lt (not_le.mp hten)] at hmid
    obtain ⟨a, rfl⟩ := List.length_eq_one_iff.mp hmid
    obtain ⟨t, ht, hat⟩ := exists_writeBefore h (digitByte v.toNat)
    refine ⟨t, by simp only [writeStep, if_neg hle, if_neg hten', hdigit, ht], ?_⟩
    rw [decimal_of_lt (not_le.mp hten)]
    exact hat

/-- The loop fills the place of its digits. -/
theorem exists_run_writeStep (fuel : ℕ) {v : UInt64} (hv : v.toNat < 100 ^ (fuel + 1))
    {front mid back : Bytes} {s : Cursor} (h : At (front ++ mid) back s)
    (hmid : mid.length = (decimal v.toNat).length) :
    ∃ t, Loop.run writeStep (fuel + 1) (s, v) = some (.ok t) ∧
      At front (decimal v.toNat ++ back) t := by
  induction fuel generalizing v mid back s with
  | zero =>
    obtain ⟨t, ht, hat⟩ := exists_writeStep_of_lt (by simpa using hv) h hmid
    exact ⟨t, by rw [Loop.run, ht], hat⟩
  | succ fuel ih =>
    by_cases hlt : v.toNat < 100
    · obtain ⟨t, ht, hat⟩ := exists_writeStep_of_lt hlt h hmid
      exact ⟨t, by rw [Loop.run, ht], hat⟩
    · have hle : 100 ≤ v.toNat := not_lt.mp hlt
      have hdiv : (v / 100).toNat = v.toNat / 100 := UInt64.toNat_div v 100
      rw [decimal_div_hundred hle, ← hdiv, List.length_append] at hmid
      -- The last two places are those of the digits written now.
      obtain ⟨rest, last, rfl, hrest, hlast⟩ : ∃ rest last, mid = rest ++ last ∧
          rest.length = (decimal (v / 100).toNat).length ∧ last.length = 2 :=
        ⟨_, _, (List.take_append_drop (decimal (v / 100).toNat).length mid).symm,
          by simp [hmid], by simp [hmid]⟩
      obtain ⟨a, b, rfl⟩ := List.length_eq_two.mp hlast
      rw [← List.append_assoc] at h
      obtain ⟨t, ht, hat⟩ := exists_writeStep_of_le hle h
      obtain ⟨u, hu, hat'⟩ := ih (by
        rw [hdiv]
        exact Nat.div_lt_of_lt_mul (by rwa [← pow_succ'])) hat hrest
      refine ⟨u, by rw [Loop.run, ht]; exact hu, ?_⟩
      rw [decimal_div_hundred hle, ← hdiv, List.append_assoc]
      exact hat'

theorem length_decimal_toNat (v : UInt64) : (decimal v.toNat).length ≤ 20 :=
  length_decimal_le (by decide) (v.toNat_lt.trans (by decide))

/-- What stands before the digits is written with them. -/
theorem exists_writeNumber {buffer : Buffer 64} (front : Bytes) (hfront : front <+: buffer.bytes)
    (hlength : front.length ≤ 1) (v : UInt64) (s : Serializer) :
    ∃ t, writeNumber buffer v (front.length + (decimal v.toNat).length) s = .ok t ∧
      t.out = s.out ++ (front ++ decimal v.toNat) := by
  obtain ⟨rest, hrest⟩ := hfront
  have hshort := length_decimal_toNat v
  have hsize := buffer.size
  rw [← hrest, List.length_append] at hsize
  have hmid : (rest.take (decimal v.toNat).length).length = (decimal v.toNat).length := by
    rw [List.length_take]
    omega
  have hat : At (front ++ rest.take (decimal v.toNat).length) (rest.drop (decimal v.toNat).length)
      ⟨buffer, front.length + (decimal v.toNat).length⟩ :=
    ⟨by simp [← hrest], by simp [hmid]⟩
  have hlt := v.toNat_lt
  obtain ⟨t, ht, hat'⟩ := exists_run_writeStep 9 (by omega) hat hmid
  have htake : t.buffer.bytes.take (front.length + (decimal v.toNat).length) =
      front ++ decimal v.toNat := by
    simp [hat'.bytes, ← List.append_assoc, ← List.length_append]
  refine ⟨⟨s.out ++ (front ++ decimal v.toNat), t.buffer, s.stringBuffer⟩, ?_, rfl⟩
  rw [writeNumber, if_pos (by omega), ht, Fault.orElse_some, Fault.ok_bind, Fault.ok_bind, htake]
  rfl

/-- The two readings of 64 bits. -/
theorem toInt_eq (x : Int64) :
    x.toInt = if 2 * x.toUInt64.toNat < 2 ^ 64 then (x.toUInt64.toNat : ℤ)
      else x.toUInt64.toNat - 2 ^ 64 := by
  change x.toBitVec.toInt = _
  rw [BitVec.toInt_eq_toNat_cond]
  rfl

/-- No absolute value is out of range, not even that of the least integer. -/
theorem toNat_removeSign {x : Int64} (h : x.toInt < 0) :
    (removeSign x).toNat = x.toInt.natAbs := by
  have hlt := x.toUInt64.toNat_lt
  have hone : (1 : UInt64).toNat = 1 := rfl
  have hsize : UInt64.size = 2 ^ 64 := rfl
  rw [removeSign, Int64.toUInt64_neg, Int64.toUInt64_add, UInt64.toNat_add, UInt64.toNat_neg,
    UInt64.toNat_add, show (1 : Int64).toUInt64 = 1 from rfl, hone, hsize]
  rw [toInt_eq] at h ⊢
  split_ifs at h ⊢ <;> omega

/-- The plain decimal text, whatever was in the array. -/
theorem emits_dumpUnsigned (x : UInt64) : Emits (dumpUnsigned x) (some (decimal x.toNat)) := by
  intro s
  by_cases hx : x = 0
  · rw [dumpUnsigned, if_pos hx, hx]
    rfl
  · obtain ⟨t, ht, hout⟩ := exists_writeNumber [] (List.nil_prefix (l := s.numberBuffer.bytes))
      (by simp) x s
    rw [List.length_nil, Nat.zero_add] at ht
    rw [dumpUnsigned, if_neg hx, countDigits_eq, Fault.ok_bind, ht]
    exact congrArg Except.ok hout

theorem emits_dumpSigned (x : Int64) :
    Emits (dumpSigned x) (some (Json.dumpInteger x.toInt)) := by
  intro s
  have hneg : x < 0 ↔ x.toInt < 0 := Int64.lt_iff_toInt_lt
  by_cases hx : x = 0
  · rw [dumpSigned, if_pos hx, hx]
    rfl
  · by_cases h : x.toInt < 0
    · have hminus : ascii "-" = [0x2d] := by decide
      obtain ⟨a, rest, ha⟩ :=
        List.exists_cons_of_length_pos (by rw [s.numberBuffer.size]; decide)
      obtain ⟨b, hb, hbytes⟩ := Buffer.exists_put [] ha 0x2d
      obtain ⟨t, ht, hout⟩ :=
        exists_writeNumber [0x2d] ⟨rest, hbytes.symm⟩ (by simp) (removeSign x) s
      rw [dumpSigned, if_neg hx, if_pos (hneg.mpr h), Json.dumpInteger, if_pos h, hminus,
        ← toNat_removeSign h]
      simp only [List.length_nil, List.length_singleton] at hb ht
      simp only [hb, countDigits_eq, Fault.ok_bind, ht]
      exact congrArg Except.ok hout
    · have hnat : x.toUInt64.toNat = x.toInt.natAbs := by
        have hlt := x.toUInt64.toNat_lt
        rw [toInt_eq] at h ⊢
        split_ifs at h ⊢ <;> omega
      rw [dumpSigned, if_neg hx, if_neg (mt hneg.mp h), emits_dumpUnsigned x.toUInt64 s, hnat,
        Json.dumpInteger, if_neg h, List.nil_append]

theorem emits_dumpFloat (grisu2 : ℚ → Digits) (x : Double) :
    Emits (dumpFloat grisu2 x) (some (Json.dumpFloat (toCharsFormat grisu2) x)) := by
  intro s
  cases x with
  | finite q =>
    have hle : (toChars grisu2 q).length ≤ 64 := (length_toChars_le grisu2 q).trans (by decide)
    rw [dumpFloat, dif_pos hle]
    rfl
  | inf b => rfl
  | nan => rfl

end Serializer

end ComputerMonitor
