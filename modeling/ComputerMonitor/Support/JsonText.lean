import ComputerMonitor.Support.Json

/-! Reading the compact form of JSON: what a text that `dump` has written says. -/

namespace ComputerMonitor

open Bytes Assoc

/-- What a text says: numbers are their digits, and members are in the order of the text. -/
inductive JsonTree
  | null
  | boolean (b : Bool)
  | number (text : Bytes)
  | string (s : Bytes)
  | array (elements : List JsonTree)
  | object (members : List (Bytes × JsonTree))

namespace JsonTree

def isNumberByte (b : UInt8) : Bool :=
  isDigit b || b == 0x2d || b == 0x2b || b == 0x2e || b == 0x65 || b == 0x45

/-- The byte behind a backslash that stands for one other byte. -/
def unescape (b : UInt8) : Option UInt8 :=
  if b = 0x62 then some 0x08
  else if b = 0x74 then some 0x09
  else if b = 0x6e then some 0x0a
  else if b = 0x66 then some 0x0c
  else if b = 0x72 then some 0x0d
  else if b = 0x22 then some 0x22
  else if b = 0x5c then some 0x5c
  else if b = 0x2f then some 0x2f
  else none

def hexVal (b : UInt8) : Option UInt8 :=
  if isDigit b then some (b - 0x30)
  else if 0x61 ≤ b ∧ b ≤ 0x66 then some (b - 0x61 + 10)
  else none

/-- The four digits behind `\u`, of a code point below 128. -/
def unicode (a b c d : UInt8) : Option UInt8 :=
  if a = 0x30 ∧ b = 0x30 then
    match hexVal c, hexVal d with
    | some h, some l => if h < 8 then some (16 * h + l) else none
    | _, _ => none
  else none

/-- A string behind its opening quote. -/
def readString : Bytes → Option (Bytes × Bytes)
  | [] => none
  | b :: s =>
    if b = 0x22 then some ([], s)
    else if b = 0x5c then
      match s with
      | 0x75 :: h₁ :: h₂ :: h₃ :: h₄ :: s =>
        match unicode h₁ h₂ h₃ h₄ with
        | some c => (readString s).map fun r => (c :: r.1, r.2)
        | none => none
      | e :: s =>
        match unescape e with
        | some c => (readString s).map fun r => (c :: r.1, r.2)
        | none => none
      | [] => none
    else if b < 0x20 then none
    else (readString s).map fun r => (b :: r.1, r.2)

/-- One of the three words, or a number. -/
def readScalar (s : Bytes) : Option (JsonTree × Bytes) :=
  if ascii "null" <+: s then some (.null, s.drop 4)
  else if ascii "true" <+: s then some (.boolean true, s.drop 4)
  else if ascii "false" <+: s then some (.boolean false, s.drop 5)
  else if s.takeWhile isNumberByte = [] then none
  else some (.number (s.takeWhile isNumberByte), s.dropWhile isNumberByte)

mutual

/-- A value at the start of a text, and what is behind it. -/
def readValue : ℕ → Bytes → Option (JsonTree × Bytes)
  | 0, _ => none
  | n + 1, s =>
    match s with
    | 0x22 :: s => (readString s).map fun r => (.string r.1, r.2)
    | 0x5b :: 0x5d :: s => some (.array [], s)
    | 0x5b :: s => (readElements n s).map fun r => (.array r.1, r.2)
    | 0x7b :: 0x7d :: s => some (.object [], s)
    | 0x7b :: s => (readMembers n s).map fun r => (.object r.1, r.2)
    | s => readScalar s

/-- The elements of an array up to its closing bracket. -/
def readElements : ℕ → Bytes → Option (List JsonTree × Bytes)
  | 0, _ => none
  | n + 1, s =>
    match readValue n s with
    | some (v, 0x2c :: s) => (readElements n s).map fun r => (v :: r.1, r.2)
    | some (v, 0x5d :: s) => some ([v], s)
    | _ => none

def readMembers : ℕ → Bytes → Option (List (Bytes × JsonTree) × Bytes)
  | 0, _ => none
  | n + 1, s =>
    match readMember n s with
    | some (m, 0x2c :: s) => (readMembers n s).map fun r => (m :: r.1, r.2)
    | some (m, 0x7d :: s) => some ([m], s)
    | _ => none

def readMember : ℕ → Bytes → Option ((Bytes × JsonTree) × Bytes)
  | 0, _ => none
  | n + 1, s =>
    match s with
    | 0x22 :: s =>
      match readString s with
      | some (key, 0x3a :: s) => (readValue n s).map fun r => ((key, r.1), r.2)
      | _ => none
    | _ => none

end

/-- A whole text. -/
def ofText (s : Bytes) : Option JsonTree :=
  match readValue (s.length + 1) s with
  | some (v, []) => some v
  | _ => none

end JsonTree

/-! ### Escapes -/

namespace Json

/-- What is written for one byte of a string. -/
def escapeByte (b : UInt8) : Bytes := escape b.toUInt32 b

theorem escape_of_le {c : UInt32} (hc : 2 ^ 7 ≤ c.toNat) (b : UInt8) : escape c b = [b] := by
  have hne : ∀ d : UInt32, d.toNat < 2 ^ 7 → c ≠ d := by
    rintro d hd rfl
    omega
  have hgt : ¬c ≤ 0x1f := by
    rw [UInt32.le_iff_toNat_le]
    have hmax : (0x1f : UInt32).toNat < 2 ^ 7 := by decide
    omega
  simp [escape, hne, hgt]

theorem escapeByte_of_le {b : UInt8} (hb : 0x80 ≤ b) : escapeByte b = [b] :=
  escape_of_le (by simpa [UInt8.le_iff_toNat_le] using hb) b

/-- Each byte of a string is written on its own. -/
theorem escapeStep_eq {e : Escaped} (he : Utf8.Inside e.state e.codepoint.toNat) {b : UInt8}
    (hnext : Utf8.next e.state b ≠ Utf8.reject) :
    ∃ t, escapeStep e b = some t ∧ t.out = e.out ++ escapeByte b ∧
      Utf8.Inside t.state t.codepoint.toNat := by
  obtain ⟨c, state, out⟩ := e
  by_cases hstate : state = Utf8.accept
  · subst hstate
    have hinside := Utf8.inside_lead c hnext
    by_cases hb : b ≤ 0x7f
    · have haccept : Utf8.next Utf8.accept b = Utf8.accept := (Utf8.next_accept_iff b).1.mpr hb
      refine ⟨_, by rw [escapeStep]; exact if_pos haccept, ?_, hinside⟩
      rw [(Utf8.lead_codepoint c b).1 hb, escapeByte]
    · have haccept : Utf8.next Utf8.accept b ≠ Utf8.accept := fun h =>
        hb ((Utf8.next_accept_iff b).1.mp h)
      refine ⟨_, by rw [escapeStep]; exact (if_neg haccept).trans (if_neg hnext), ?_, hinside⟩
      rw [escapeByte_of_le]
      simp only [UInt8.le_iff_toNat_le, UInt8.reduceToNat] at hb ⊢
      omega
  · obtain ⟨⟨hb, -⟩, hinside, hlarge⟩ := Utf8.inside_next he hstate hnext
    have hbyte : escapeByte b = [b] := escapeByte_of_le hb
    by_cases haccept : Utf8.next state b = Utf8.accept
    · refine ⟨_, by rw [escapeStep]; exact if_pos haccept, ?_, hinside⟩
      rw [hbyte, escape_of_le (hlarge haccept)]
    · refine ⟨_, by rw [escapeStep]; exact (if_neg haccept).trans (if_neg hnext), ?_, hinside⟩
      rw [hbyte]

theorem foldlM_escapeStep_eq {s : Bytes} {e : Escaped}
    (he : Utf8.Inside e.state e.codepoint.toNat) (hs : s.foldl Utf8.next e.state = Utf8.accept) :
    ∃ t, s.foldlM escapeStep e = some t ∧ t.state = Utf8.accept ∧
      t.out = e.out ++ s.flatMap escapeByte := by
  induction s generalizing e with
  | nil => exact ⟨e, rfl, hs, by simp⟩
  | cons b s ih =>
    have hnext : Utf8.next e.state b ≠ Utf8.reject := by
      intro hreject
      rw [List.foldl_cons, hreject, Utf8.reject, Utf8.foldl_reject] at hs
      cases hs
    obtain ⟨t, ht, hout, hinside⟩ := escapeStep_eq he hnext
    have hstate : s.foldl Utf8.next t.state = Utf8.accept := by
      rw [(state_of_escapeStep ht).1]
      exact hs
    obtain ⟨u, hu, hustate, huout⟩ := ih hinside hstate
    refine ⟨u, by rw [List.foldlM_cons, ht]; exact hu, hustate, ?_⟩
    rw [huout, hout, List.flatMap_cons, List.append_assoc]

theorem dumpEscaped_eq {s : Bytes} (h : Utf8 s) : dumpEscaped s = some (s.flatMap escapeByte) := by
  obtain ⟨t, ht, hstate, hout⟩ :=
    foldlM_escapeStep_eq (e := ⟨0, Utf8.accept, []⟩) .none (Utf8.accepts_of_utf8 h)
  simp [dumpEscaped, ht, hstate, hout]

/-- The forms of what is written for a byte. -/
def Escape (b : UInt8) : Bytes → Prop
  | [c] => c = b ∧ b ≠ 0x22 ∧ b ≠ 0x5c ∧ ¬b < 0x20
  | [a, c] => a = 0x5c ∧ c ≠ 0x75 ∧ 0x20 ≤ c ∧ JsonTree.unescape c = some b
  | [a, u, h₁, h₂, h₃, h₄] =>
    a = 0x5c ∧ u = 0x75 ∧ JsonTree.unicode h₁ h₂ h₃ h₄ = some b
  | _ => False

instance (b : UInt8) : DecidablePred (Escape b) := fun s => by
  unfold Escape
  split <;> infer_instance

theorem escape_escapeByte : ∀ b : UInt8, Escape b (escapeByte b) ∧
    ((escapeByte b).all fun c => 0x20 ≤ c && (c ≤ 0x7f || 0x80 ≤ b)) = true := by
  decide +kernel

theorem readString_escapeByte (b : UInt8) (s : Bytes) :
    JsonTree.readString (escapeByte b ++ s) =
      (JsonTree.readString s).map fun r => (b :: r.1, r.2) := by
  have hform := (escape_escapeByte b).1
  generalize escapeByte b = w at hform
  match w, hform with
  | [c], ⟨hc, hquote, hback, hcontrol⟩ =>
    subst hc
    rw [List.singleton_append, JsonTree.readString.eq_def]
    simp [hquote, hback, hcontrol]
  | [a, c], ⟨ha, hc, _, hunescape⟩ =>
    subst ha
    rw [List.cons_append, List.singleton_append, JsonTree.readString.eq_def]
    simp [hc, hunescape]
  | [a, u, h₁, h₂, h₃, h₄], ⟨ha, hu, hunicode⟩ =>
    subst ha hu
    simp only [List.cons_append, List.nil_append]
    rw [JsonTree.readString.eq_def]
    simp [hunicode]

/-- A reader finds a string again behind the quotes and escapes. -/
theorem readString_escaped (s rest : Bytes) :
    JsonTree.readString (s.flatMap escapeByte ++ 0x22 :: rest) = some (s, rest) := by
  induction s with
  | nil =>
    rw [JsonTree.readString.eq_def]
    simp
  | cons b s ih =>
    rw [List.flatMap_cons, List.append_assoc, readString_escapeByte, ih, Option.map_some]

end Json

/-! ### Where values end -/

namespace JsonTree

theorem readScalar_of_stops {b : UInt8} (h : isNumberByte b = false) (hn : b ≠ 0x6e) (ht : b ≠ 0x74)
    (hf : b ≠ 0x66) (s : Bytes) : readScalar (b :: s) = none := by
  simp [readScalar, ascii, h, hn.symm, ht.symm, hf.symm]

theorem readElements_bracket (n : ℕ) (s : Bytes) : readElements n (0x5d :: s) = none := by
  cases n with
  | zero => rfl
  | succ n =>
    cases n with
    | zero => rfl
    | succ n =>
      have hvalue : readValue (n + 1) (0x5d :: s) = none := by
        rw [readValue.eq_def]
        exact readScalar_of_stops rfl (by decide) (by decide) (by decide) s
      rw [readElements, hvalue]

theorem readMembers_brace (n : ℕ) (s : Bytes) : readMembers n (0x7d :: s) = none := by
  cases n with
  | zero => rfl
  | succ n =>
    have hmember : readMember n (0x7d :: s) = none := by
      cases n with
      | zero => rfl
      | succ n =>
        rw [readMember.eq_def]
        simp
    rw [readMembers, hmember]

theorem readValue_array {n : ℕ} {s rest : Bytes} {elements : List JsonTree}
    (h : readElements n s = some (elements, rest)) :
    readValue (n + 1) (0x5b :: s) = some (.array elements, rest) := by
  cases s with
  | nil => simp [readValue, h]
  | cons b s =>
    have hb : b ≠ 0x5d := by
      rintro rfl
      rw [readElements_bracket] at h
      cases h
    simp [readValue, hb, h]

theorem readValue_object {n : ℕ} {s rest : Bytes} {members : List (Bytes × JsonTree)}
    (h : readMembers n s = some (members, rest)) :
    readValue (n + 1) (0x7b :: s) = some (.object members, rest) := by
  cases s with
  | nil => simp [readValue, h]
  | cons b s =>
    have hb : b ≠ 0x7d := by
      rintro rfl
      rw [readMembers_brace] at h
      cases h
    simp [readValue, hb, h]

theorem readValue_scalar {n : ℕ} {b : UInt8} (hs : b ≠ 0x22) (ha : b ≠ 0x5b) (ho : b ≠ 0x7b)
    (s : Bytes) : readValue (n + 1) (b :: s) = readScalar (b :: s) := by
  simp [readValue, hs, ha, ho]

/-- A number ends where its bytes end. -/
theorem readValue_number {n : ℕ} {t rest : Bytes}
    (hhead : ∃ b ∈ t.head?, b = 0x2d ∨ isDigit b = true) (ht : ∀ b ∈ t, isNumberByte b = true)
    (hrest : Stops isNumberByte rest) :
    readValue (n + 1) (t ++ rest) = some (.number t, rest) := by
  obtain ⟨b, hb, hfirst⟩ := hhead
  obtain ⟨t, rfl⟩ : ∃ s, t = b :: s := by
    cases t with
    | nil => cases hb
    | cons c t =>
      cases hb
      exact ⟨t, rfl⟩
  have hne : ∀ c : UInt8, c ≠ 0x2d → isDigit c = false → b ≠ c := by
    rintro c hminus hdigit rfl
    rcases hfirst with h | h
    · exact hminus h
    · rw [hdigit] at h
      cases h
  have hword : ∀ w : Bytes, ∀ c ∈ w.head?, b ≠ c → ¬w <+: b :: t ++ rest := by
    rintro (- | ⟨d, w⟩) c hc hbc hprefix
    · cases hc
    · cases hc
      exact hbc (List.cons_prefix_cons.mp hprefix).1.symm
  rw [List.cons_append, readValue_scalar (hne _ (by decide) (by decide))
    (hne _ (by decide) (by decide)) (hne _ (by decide) (by decide)), ← List.cons_append, readScalar,
    if_neg (hword _ 0x6e (by decide) (hne _ (by decide) (by decide))),
    if_neg (hword _ 0x74 (by decide) (hne _ (by decide) (by decide))),
    if_neg (hword _ 0x66 (by decide) (hne _ (by decide) (by decide))),
    takeWhile_run ht hrest, dropWhile_run ht hrest, if_neg (List.cons_ne_nil _ _)]

end JsonTree

/-! ### What `dump` writes -/

namespace Json

/-- Numbers are written with the bytes of numbers. -/
def FloatFormat.Numeric (fmt : FloatFormat) : Prop :=
  ∀ q, ∀ b ∈ fmt.text q, JsonTree.isNumberByte b = true

def plainFloat (fmt : FloatFormat) : Double → JsonTree
  | .finite q => .number (fmt.text q)
  | .inf _ => .null
  | .nan => .null

mutual

/-- What remains of a value in its text. -/
def plain (fmt : FloatFormat) : Json → JsonTree
  | .null => .null
  | .boolean b => .boolean b
  | .numberInteger i => .number (dumpInteger i)
  | .numberUnsigned n => .number (decimal n)
  | .numberFloat x => plainFloat fmt x
  | .string s => .string s
  | .array elements => .array (plainElements fmt elements)
  | .object members => .object (plainMembers fmt members)

def plainElements (fmt : FloatFormat) : List Json → List JsonTree
  | [] => []
  | j :: js => plain fmt j :: plainElements fmt js

def plainMembers (fmt : FloatFormat) : List (Bytes × Json) → List (Bytes × JsonTree)
  | [] => []
  | m :: ms => plainMember fmt m :: plainMembers fmt ms

def plainMember (fmt : FloatFormat) : Bytes × Json → Bytes × JsonTree
  | (key, value) => (key, plain fmt value)

end

theorem isNumberByte_of_isDigit {b : UInt8} (h : isDigit b = true) :
    JsonTree.isNumberByte b = true := by
  simp [JsonTree.isNumberByte, h]

theorem readValue_null (n : ℕ) (rest : Bytes) :
    JsonTree.readValue (n + 1) (ascii "null" ++ rest) = some (.null, rest) := by
  simp [ascii, JsonTree.readValue, JsonTree.readScalar]

theorem readValue_boolean (n : ℕ) (b : Bool) (rest : Bytes) :
    JsonTree.readValue (n + 1) ((if b then ascii "true" else ascii "false") ++ rest) =
      some (.boolean b, rest) := by
  cases b <;> simp [ascii, JsonTree.readValue, JsonTree.readScalar]

theorem readValue_decimal (n m : ℕ) {rest : Bytes} (hrest : Stops JsonTree.isNumberByte rest) :
    JsonTree.readValue (n + 1) (decimal m ++ rest) = some (.number (decimal m), rest) := by
  obtain ⟨b, hb, hdigit⟩ := head_decimal m
  exact JsonTree.readValue_number ⟨b, hb, .inr hdigit⟩
    (fun b hb => isNumberByte_of_isDigit (decimal_digits m b hb)) hrest

theorem readValue_integer (n : ℕ) (i : ℤ) {rest : Bytes}
    (hrest : Stops JsonTree.isNumberByte rest) :
    JsonTree.readValue (n + 1) (dumpInteger i ++ rest) = some (.number (dumpInteger i), rest) := by
  by_cases hi : i < 0
  · apply JsonTree.readValue_number ⟨0x2d, by simp [dumpInteger, hi, ascii], .inl rfl⟩ _ hrest
    intro b hb
    rw [dumpInteger, if_pos hi, List.mem_append] at hb
    rcases hb with hb | hb
    · obtain rfl : b = 0x2d := by simpa [ascii] using hb
      rfl
    · exact isNumberByte_of_isDigit (decimal_digits _ b hb)
  · rw [dumpInteger, if_neg hi]
    exact readValue_decimal n _ hrest

theorem readValue_float {fmt : FloatFormat} (hfmt : fmt.Numeric) (n : ℕ) (x : Double)
    {rest : Bytes} (hrest : Stops JsonTree.isNumberByte rest) :
    JsonTree.readValue (n + 1) (dumpFloat fmt x ++ rest) = some (plainFloat fmt x, rest) := by
  cases x with
  | finite q => exact JsonTree.readValue_number (fmt.head q) (hfmt q) hrest
  | inf s => exact readValue_null n rest
  | nan => exact readValue_null n rest

theorem readString_quote {s k : Bytes} (h : dumpEscaped s = some k) (rest : Bytes) :
    ∃ t, quote k ++ rest = 0x22 :: t ∧ JsonTree.readString t = some (s, rest) := by
  have hvalid : Utf8 s := (isSome_dumpEscaped s).mp (by simp [h])
  rw [dumpEscaped_eq hvalid, Option.some.injEq] at h
  subst h
  exact ⟨s.flatMap escapeByte ++ 0x22 :: rest, by simp [quote], readString_escaped s rest⟩

theorem commas_cons (t : Bytes) (ts : List Bytes) :
    commas (t :: ts) = if ts = [] then t else t ++ 0x2c :: commas ts := by
  cases ts <;> simp [commas, ascii]

mutual

/-- What `dump` writes reads back as the value: nothing is added, lost or moved. -/
theorem readValue_dump {fmt : FloatFormat} (hfmt : fmt.Numeric) :
    ∀ (j : Json) {t : Bytes} (rest : Bytes) {n : ℕ}, dump fmt j = some t →
      Stops JsonTree.isNumberByte rest → t.length < n →
        JsonTree.readValue n (t ++ rest) = some (plain fmt j, rest)
  | _, _, _, 0, _, _, hn => absurd hn (Nat.not_lt_zero _)
  | .null, t, rest, n + 1, ht, _, _ => by
    cases ht
    exact readValue_null n rest
  | .boolean b, t, rest, n + 1, ht, _, _ => by
    cases ht
    exact readValue_boolean n b rest
  | .numberInteger i, t, rest, n + 1, ht, hrest, _ => by
    cases ht
    exact readValue_integer n i hrest
  | .numberUnsigned m, t, rest, n + 1, ht, hrest, _ => by
    cases ht
    exact readValue_decimal n m hrest
  | .numberFloat x, t, rest, n + 1, ht, hrest, _ => by
    cases ht
    exact readValue_float hfmt n x hrest
  | .string s, t, rest, n + 1, ht, _, _ => by
    obtain ⟨k, hk, rfl⟩ := Option.map_eq_some_iff.mp ht
    obtain ⟨u, hu, hread⟩ := readString_quote hk rest
    simp [hu, JsonTree.readValue, hread, plain]
  | .array [], t, rest, n + 1, ht, _, _ => by
    cases ht
    simp [ascii, commas, JsonTree.readValue, plain, plainElements]
  | .array (j :: js), t, rest, n + 1, ht, _, hn => by
    obtain ⟨ts, hts, rfl⟩ := Option.map_eq_some_iff.mp ht
    have helements := readElements_dump hfmt (j :: js) (by simp) rest (n := n) hts
      (by simp [ascii] at hn; omega)
    simpa [ascii, plain] using JsonTree.readValue_array helements
  | .object [], t, rest, n + 1, ht, _, _ => by
    cases ht
    simp [ascii, commas, JsonTree.readValue, plain, plainMembers]
  | .object (m :: ms), t, rest, n + 1, ht, _, hn => by
    obtain ⟨ts, hts, rfl⟩ := Option.map_eq_some_iff.mp ht
    have hmembers := readMembers_dump hfmt (m :: ms) (by simp) rest (n := n) hts
      (by simp [ascii] at hn; omega)
    simpa [ascii, plain] using JsonTree.readValue_object hmembers

theorem readElements_dump {fmt : FloatFormat} (hfmt : fmt.Numeric) :
    ∀ (js : List Json) (_ : js ≠ []) {ts : List Bytes} (rest : Bytes) {n : ℕ},
      dumpElements fmt js = some ts → (commas ts).length + 1 < n →
        JsonTree.readElements n (commas ts ++ 0x5d :: rest) = some (plainElements fmt js, rest)
  | _, _, _, _, 0, _, hn => absurd hn (Nat.not_lt_zero _)
  | [], hne, _, _, _, _, _ => absurd rfl hne
  | j :: js, _, ts, rest, n + 1, hts, hn => by
    simp only [dumpElements, Option.bind_eq_bind, Option.bind_eq_some_iff, Option.pure_def,
      Option.some.injEq] at hts
    obtain ⟨t, ht, us, hus, rfl⟩ := hts
    rw [commas_cons] at hn ⊢
    cases js with
    | nil =>
      cases hus
      rw [if_pos rfl] at hn ⊢
      have hvalue := readValue_dump hfmt j (0x5d :: rest) ht (by simp; decide)
        (show t.length < n by omega)
      simp [JsonTree.readElements, hvalue, plainElements]
    | cons i is =>
      have hne : us ≠ [] := by
        rintro rfl
        simp [dumpElements, Option.bind_eq_some_iff] at hus
      rw [if_neg hne] at hn ⊢
      simp only [List.length_append, List.length_cons] at hn
      have hvalue := readValue_dump hfmt j (0x2c :: (commas us ++ 0x5d :: rest)) ht
        (by simp; decide) (show t.length < n by omega)
      have hrest := readElements_dump hfmt (i :: is) (by simp) rest (n := n) hus (by omega)
      rw [List.append_assoc, List.cons_append, JsonTree.readElements, hvalue]
      simp [hrest, plainElements]

theorem readMembers_dump {fmt : FloatFormat} (hfmt : fmt.Numeric) :
    ∀ (ms : List (Bytes × Json)) (_ : ms ≠ []) {ts : List Bytes} (rest : Bytes) {n : ℕ},
      dumpMembers fmt ms = some ts → (commas ts).length + 1 < n →
        JsonTree.readMembers n (commas ts ++ 0x7d :: rest) = some (plainMembers fmt ms, rest)
  | _, _, _, _, 0, _, hn => absurd hn (Nat.not_lt_zero _)
  | [], hne, _, _, _, _, _ => absurd rfl hne
  | m :: ms, _, ts, rest, n + 1, hts, hn => by
    simp only [dumpMembers, Option.bind_eq_bind, Option.bind_eq_some_iff, Option.pure_def,
      Option.some.injEq] at hts
    obtain ⟨t, ht, us, hus, rfl⟩ := hts
    rw [commas_cons] at hn ⊢
    cases ms with
    | nil =>
      cases hus
      rw [if_pos rfl] at hn ⊢
      have hmember := readMember_dump hfmt m (0x7d :: rest) ht (by simp; decide)
        (show t.length < n by omega)
      simp [JsonTree.readMembers, hmember, plainMembers]
    | cons i is =>
      have hne : us ≠ [] := by
        rintro rfl
        simp [dumpMembers, Option.bind_eq_some_iff] at hus
      rw [if_neg hne] at hn ⊢
      simp only [List.length_append, List.length_cons] at hn
      have hmember := readMember_dump hfmt m (0x2c :: (commas us ++ 0x7d :: rest)) ht
        (by simp; decide) (show t.length < n by omega)
      have hrest := readMembers_dump hfmt (i :: is) (by simp) rest (n := n) hus (by omega)
      rw [List.append_assoc, List.cons_append, JsonTree.readMembers, hmember]
      simp [hrest, plainMembers]

theorem readMember_dump {fmt : FloatFormat} (hfmt : fmt.Numeric) :
    ∀ (m : Bytes × Json) {t : Bytes} (rest : Bytes) {n : ℕ}, dumpMember fmt m = some t →
      Stops JsonTree.isNumberByte rest → t.length < n →
        JsonTree.readMember n (t ++ rest) = some (plainMember fmt m, rest)
  | _, _, _, 0, _, _, hn => absurd hn (Nat.not_lt_zero _)
  | (key, value), t, rest, n + 1, ht, hrest, hn => by
    simp only [dumpMember, Option.bind_eq_bind, Option.bind_eq_some_iff, Option.pure_def,
      Option.some.injEq] at ht
    obtain ⟨k, hk, v, hv, rfl⟩ := ht
    obtain ⟨u, hu, hread⟩ := readString_quote hk (0x3a :: (v ++ rest))
    have hvalue := readValue_dump hfmt value rest hv hrest
      (show v.length < n by simp [ascii] at hn; omega)
    have hsplit : quote k ++ ascii ":" ++ v ++ rest = 0x22 :: u := by
      rw [← hu]
      simp [ascii]
    rw [hsplit]
    simp [JsonTree.readMember, hread, hvalue, plainMember]

end

/-- The text of a value reads back as that value. -/
theorem ofText_dump {fmt : FloatFormat} (hfmt : fmt.Numeric) {j : Json} {t : Bytes}
    (h : dump fmt j = some t) : JsonTree.ofText t = some (plain fmt j) := by
  have hvalue := readValue_dump hfmt j [] h (by simp) (Nat.lt_succ_self _)
  rw [List.append_nil] at hvalue
  rw [JsonTree.ofText, hvalue]

theorem map_ofText {fmt : FloatFormat} (hfmt : fmt.Numeric) {js : List Json} {ts : List Bytes}
    (h : js.map (dump fmt) = ts.map some) :
    ts.map JsonTree.ofText = js.map fun j => some (j.plain fmt) := by
  induction js generalizing ts with
  | nil =>
    obtain rfl : ts = [] := by simpa using h.symm
    rfl
  | cons j js ih =>
    cases ts with
    | nil => cases h
    | cons t ts =>
      rw [List.map_cons, List.map_cons, List.cons.injEq] at h
      rw [List.map_cons, List.map_cons, ofText_dump hfmt h.1, ih h.2]

end Json

/-! ### Looking into a text -/

namespace JsonTree

/-- The member of an object under a key. -/
def member (key : Bytes) : JsonTree → Option JsonTree
  | .object ms => find key ms
  | _ => none

/-- `none` stands for an array that is not there. -/
def elements : Option JsonTree → List JsonTree
  | some (.array es) => es
  | _ => []

def members : JsonTree → List (Bytes × JsonTree)
  | .object ms => ms
  | _ => []

def text? : JsonTree → Option Bytes
  | .string s => some s
  | _ => none

def number? : JsonTree → Option Bytes
  | .number text => some text
  | _ => none

end JsonTree

namespace Json

theorem find_plainMembers (fmt : FloatFormat) (key : Bytes) (ms : List (Bytes × Json)) :
    find key (plainMembers fmt ms) = (find key ms).map (plain fmt) := by
  induction ms with
  | nil => rfl
  | cons m ms ih =>
    obtain ⟨k, v⟩ := m
    rw [plainMembers, plainMember, find, find, ih]
    split_ifs <;> rfl

theorem member_plain (fmt : FloatFormat) (key : Bytes) (j : Json) :
    (plain fmt j).member key = (find key j.members).map (plain fmt) := by
  cases j with
  | object ms => exact find_plainMembers fmt key ms
  | numberFloat x => cases x <;> rfl
  | _ => rfl

theorem length_members_plain (fmt : FloatFormat) (j : Json) :
    (plain fmt j).members.length = j.members.length := by
  cases j with
  | object ms =>
    change (plainMembers fmt ms).length = ms.length
    induction ms with
    | nil => rfl
    | cons m ms ih => rw [plainMembers, List.length_cons, ih, List.length_cons]
  | numberFloat x => cases x <;> rfl
  | _ => rfl

end Json

end ComputerMonitor
