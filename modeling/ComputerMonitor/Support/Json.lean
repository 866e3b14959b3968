import ComputerMonitor.Support.Assoc
import ComputerMonitor.Support.Double
import ComputerMonitor.Support.Utf8

/-! JSON values as nlohmann's library has them: brace initializers, member access, `merge_patch` and
`dump`.  A `none` is an exception. -/

namespace ComputerMonitor

open Bytes Assoc

inductive Json
  | null
  | boolean (b : Bool)
  | numberInteger (i : ℤ)
  | numberUnsigned (n : ℕ)
  | numberFloat (x : Double)
  | string (s : Bytes)
  | array (elements : List Json)
  | object (members : List (Bytes × Json))

namespace Json

def isNull : Json → Bool
  | .null => true
  | .boolean _ => false
  | .numberInteger _ => false
  | .numberUnsigned _ => false
  | .numberFloat _ => false
  | .string _ => false
  | .array _ => false
  | .object _ => false

/-- `empty()`. -/
def isEmpty : Json → Bool
  | .null => true
  | .boolean _ => false
  | .numberInteger _ => false
  | .numberUnsigned _ => false
  | .numberFloat _ => false
  | .string _ => false
  | .array elements => elements.isEmpty
  | .object members => members.isEmpty

/-- The members of an object; a value of another type is replaced by an empty object. -/
def members : Json → List (Bytes × Json)
  | .null => []
  | .boolean _ => []
  | .numberInteger _ => []
  | .numberUnsigned _ => []
  | .numberFloat _ => []
  | .string _ => []
  | .array _ => []
  | .object members => members

@[simp] theorem members_null : members .null = [] := rfl

@[simp] theorem members_object (ms : List (Bytes × Json)) : members (.object ms) = ms := rfl

/-! ### Building values -/

/-- A two-element array whose first element is a string. -/
def pair? : Json → Option (Bytes × Json)
  | .array [.string key, value] => some (key, value)
  | _ => none

/-- A value from a braced list: an object if every element is a pair, otherwise an array. -/
def ofInitList (init : List Json) : Json :=
  match init.mapM pair? with
  | some ps => .object (ps.foldl (fun ms p => emplace p.1 p.2 ms) [])
  | none => .array init

/-- `{"key", value}` inside a braced list. -/
def pair (key : Bytes) (value : Json) : Json := ofInitList [.string key, value]

/-- What `operator[]` gives access to: a null value becomes an object and a missing member null. -/
def modify (j : Json) (key : Bytes) (f : Json → Option Json) : Option Json :=
  match j with
  | .null => (f .null).map fun v => .object [(key, v)]
  | .object ms => (f ((find key ms).getD .null)).map fun v => .object (Assoc.insert key v ms)
  | _ => none

/-- `j[key] = v`. -/
def set (j : Json) (key : Bytes) (v : Json) : Option Json := j.modify key fun _ => some v

@[simp] theorem null_set (key : Bytes) (v : Json) :
    null.set key v = some (.object [(key, v)]) := rfl

@[simp] theorem object_set (ms : List (Bytes × Json)) (key : Bytes) (v : Json) :
    (object ms).set key v = some (.object (Assoc.insert key v ms)) := rfl

def pushBack (v : Json) : Json → Option Json
  | .null => some (.array [v])
  | .array elements => some (.array (elements ++ [v]))
  | _ => none

/-! ### `merge_patch` -/

mutual

def mergePatch (target : Json) : Json → Json
  | .object patch => .object (mergeMembers target.members patch)
  | .null => .null
  | .boolean b => .boolean b
  | .numberInteger i => .numberInteger i
  | .numberUnsigned n => .numberUnsigned n
  | .numberFloat x => .numberFloat x
  | .string s => .string s
  | .array elements => .array elements

def mergeMembers (target : List (Bytes × Json)) : List (Bytes × Json) → List (Bytes × Json)
  | [] => target
  | m :: patch => mergeMembers (mergeMember target m) patch

def mergeMember (target : List (Bytes × Json)) : Bytes × Json → List (Bytes × Json)
  | (key, value) =>
    if value.isNull then erase key target
    else Assoc.insert key (mergePatch ((find key target).getD .null) value) target

end

/-- A member that a merge takes over as it is. -/
def IsLeaf (j : Json) : Prop := ∀ target, mergePatch target j = j ∧ j.isNull = false

/-- An object without further objects or nulls, in the order of its keys. -/
structure IsFlat (j : Json) : Prop where
  eq : j = .object j.members
  leaf : ∀ m ∈ j.members, m.2.IsLeaf
  sorted : (keys j.members).Pairwise fun a b => ¬b < a ∧ b ≠ a

theorem isLeaf_string (s : Bytes) : (string s).IsLeaf := fun _ => ⟨rfl, rfl⟩

theorem isLeaf_numberFloat (x : Double) : (numberFloat x).IsLeaf := fun _ => ⟨rfl, rfl⟩

theorem isLeaf_numberUnsigned (n : ℕ) : (numberUnsigned n).IsLeaf := fun _ => ⟨rfl, rfl⟩

theorem isFlat_object {ms : List (Bytes × Json)} (hleaf : ∀ m ∈ ms, m.2.IsLeaf)
    (hsorted : (keys ms).Pairwise fun a b => ¬b < a ∧ b ≠ a) : (object ms).IsFlat :=
  ⟨rfl, hleaf, hsorted⟩

theorem mergeMembers_leaves {patch : List (Bytes × Json)} (h : ∀ m ∈ patch, m.2.IsLeaf)
    (target : List (Bytes × Json)) : mergeMembers target patch = insertAll patch target := by
  induction patch generalizing target with
  | nil => rfl
  | cons m patch ih =>
    obtain ⟨key, value⟩ := m
    obtain ⟨hvalue, hnull⟩ := h (key, value) (by simp) ((find key target).getD .null)
    have hmember : mergeMember target (key, value) = Assoc.insert key value target := by
      rw [mergeMember, hnull, hvalue]
      rfl
    rw [mergeMembers, hmember, ih fun n hn => h n (by simp [hn]), insertAll_cons]

/-- Merging a flat object into null gives that object. -/
theorem IsFlat.mergePatch_null {j : Json} (h : j.IsFlat) : mergePatch .null j = j := by
  have hmerge : mergePatch .null (.object j.members) = .object j.members := by
    rw [mergePatch, mergeMembers_leaves h.leaf, members, insertAll_sorted h.sorted]
  rwa [← h.eq] at hmerge

theorem IsFlat.isNull {j : Json} (h : j.IsFlat) : j.isNull = false := by
  rw [h.eq]
  rfl

/-- New members that are flat objects are added as they are. -/
theorem mergeMembers_flat {patch target : List (Bytes × Json)} (h : ∀ m ∈ patch, m.2.IsFlat)
    (hnew : (keys patch ++ keys target).Nodup) :
    mergeMembers target patch = insertAll patch target := by
  induction patch generalizing target with
  | nil => rfl
  | cons m patch ih =>
    obtain ⟨key, value⟩ := m
    have hflat : value.IsFlat := h (key, value) (by simp)
    rw [keys_cons, List.cons_append] at hnew
    have hkey : key ∉ keys target := fun hk =>
      (List.nodup_cons.mp hnew).1 (List.mem_append_right _ hk)
    have hmember : mergeMember target (key, value) = Assoc.insert key value target := by
      rw [mergeMember, hflat.isNull, find_eq_none_iff.mpr hkey, Option.getD_none,
        hflat.mergePatch_null]
      rfl
    have hnew' : (keys patch ++ keys (Assoc.insert key value target)).Nodup :=
      (((keys_insert hkey value).append_left _).trans List.perm_middle).nodup_iff.mpr hnew
    rw [mergeMembers, hmember, ih (fun n hn => h n (by simp [hn])) hnew', insertAll_cons]

/-! ### `dump` -/

/-- How the library prints finite floating-point numbers: starting with a digit or a minus. -/
structure FloatFormat where
  text : ℚ → Bytes
  head : ∀ q, ∃ b ∈ (text q).head?, b = 0x2d ∨ isDigit b = true

def hexDigit (n : UInt32) : UInt8 :=
  if n < 10 then 0x30 + n.toUInt8 else 0x61 + (n.toUInt8 - 10)

/-- `"\\u%04x"` -/
def unicodeEscape (codepoint : UInt32) : Bytes :=
  [0x5c, 0x75, hexDigit ((codepoint >>> 12) &&& 0xf), hexDigit ((codepoint >>> 8) &&& 0xf),
    hexDigit ((codepoint >>> 4) &&& 0xf), hexDigit (codepoint &&& 0xf)]

/-- What is written for a complete code point, whose last byte is `byte`: an escape, or that
byte. -/
def escape (codepoint : UInt32) (byte : UInt8) : Bytes :=
  if codepoint = 0x08 then ascii "\\b"
  else if codepoint = 0x09 then ascii "\\t"
  else if codepoint = 0x0a then ascii "\\n"
  else if codepoint = 0x0c then ascii "\\f"
  else if codepoint = 0x0d then ascii "\\r"
  else if codepoint = 0x22 then ascii "\\\""
  else if codepoint = 0x5c then ascii "\\\\"
  else if codepoint ≤ 0x1f then unicodeEscape codepoint
  else [byte]

structure Escaped where
  codepoint : UInt32
  state : UInt8
  out : Bytes

/-- One byte of `dump_escaped`, with the strict error handler. -/
def escapeStep (s : Escaped) (byte : UInt8) : Option Escaped :=
  let codepoint := Utf8.codepoint s.state s.codepoint byte
  let state := Utf8.next s.state byte
  if state = Utf8.accept then some ⟨codepoint, state, s.out ++ escape codepoint byte⟩
  else if state = Utf8.reject then none
  else some ⟨codepoint, state, s.out ++ [byte]⟩

def dumpEscaped (s : Bytes) : Option Bytes :=
  (s.foldlM escapeStep ⟨0, Utf8.accept, []⟩).bind fun e =>
    if e.state = Utf8.accept then some e.out else none

def dumpFloat (fmt : FloatFormat) : Double → Bytes
  | .finite q => fmt.text q
  | .inf _ => ascii "null"
  | .nan => ascii "null"

def dumpInteger (i : ℤ) : Bytes := (if i < 0 then ascii "-" else []) ++ decimal i.natAbs

def quote (s : Bytes) : Bytes := 0x22 :: (s ++ [0x22])

def commas (texts : List Bytes) : Bytes := (texts.intersperse (ascii ",")).flatten

mutual

/-- `dump()`: the compact form. -/
def dump (fmt : FloatFormat) : Json → Option Bytes
  | .null => some (ascii "null")
  | .boolean b => some (if b then ascii "true" else ascii "false")
  | .numberInteger i => some (dumpInteger i)
  | .numberUnsigned n => some (decimal n)
  | .numberFloat x => some (dumpFloat fmt x)
  | .string s => (dumpEscaped s).map quote
  | .array elements =>
    (dumpElements fmt elements).map fun ts => ascii "[" ++ commas ts ++ ascii "]"
  | .object members =>
    (dumpMembers fmt members).map fun ts => ascii "\x7b" ++ commas ts ++ ascii "\x7d"

def dumpElements (fmt : FloatFormat) : List Json → Option (List Bytes)
  | [] => some []
  | j :: js => do
    let t ← dump fmt j
    let ts ← dumpElements fmt js
    return t :: ts

def dumpMembers (fmt : FloatFormat) : List (Bytes × Json) → Option (List Bytes)
  | [] => some []
  | m :: ms => do
    let t ← dumpMember fmt m
    let ts ← dumpMembers fmt ms
    return t :: ts

def dumpMember (fmt : FloatFormat) : Bytes × Json → Option Bytes
  | (key, value) => do
    let k ← dumpEscaped key
    let v ← dump fmt value
    return quote k ++ ascii ":" ++ v

end

mutual

/-- The strings in a value, keys included. -/
def strings : Json → List Bytes
  | .null => []
  | .boolean _ => []
  | .numberInteger _ => []
  | .numberUnsigned _ => []
  | .numberFloat _ => []
  | .string s => [s]
  | .array elements => elementStrings elements
  | .object members => memberStrings members

def elementStrings : List Json → List Bytes
  | [] => []
  | j :: js => strings j ++ elementStrings js

def memberStrings : List (Bytes × Json) → List Bytes
  | [] => []
  | m :: ms => pairStrings m ++ memberStrings ms

def pairStrings : Bytes × Json → List Bytes
  | (key, value) => key :: strings value

end

theorem state_of_escapeStep {s t : Escaped} {byte : UInt8} (h : escapeStep s byte = some t) :
    t.state = Utf8.next s.state byte ∧ t.state ≠ Utf8.reject := by
  simp only [escapeStep] at h
  split_ifs at h with ha hr
  · cases h
    exact ⟨rfl, by simp [ha, Utf8.accept, Utf8.reject]⟩
  · cases h
    exact ⟨rfl, hr⟩

theorem escapeStep_eq_none_iff {s : Escaped} {byte : UInt8} :
    escapeStep s byte = none ↔ Utf8.next s.state byte = Utf8.reject := by
  simp only [escapeStep]
  split_ifs with ha hr
  · simp [ha, Utf8.accept, Utf8.reject]
  · simp [hr]
  · simp [hr]

/-- Escaping follows the automaton until it rejects. -/
theorem foldlM_escapeStep (s : Bytes) (e : Escaped) :
    (∃ t, s.foldlM escapeStep e = some t ∧ t.state = s.foldl Utf8.next e.state) ∨
      s.foldlM escapeStep e = none ∧ s.foldl Utf8.next e.state = Utf8.reject := by
  induction s generalizing e with
  | nil => exact .inl ⟨e, rfl, rfl⟩
  | cons b s ih =>
    rw [List.foldlM_cons, List.foldl_cons]
    cases h : escapeStep e b with
    | none =>
      right
      rw [escapeStep_eq_none_iff.mp h]
      exact ⟨rfl, Utf8.foldl_reject s⟩
    | some t =>
      rw [← (state_of_escapeStep h).1]
      exact ih t

/-- A string can be written exactly if it is well-formed UTF-8. -/
theorem isSome_dumpEscaped (s : Bytes) : (dumpEscaped s).isSome = true ↔ Utf8 s := by
  rw [← Utf8.accepts_iff, Utf8.Accepts, dumpEscaped]
  rcases foldlM_escapeStep s ⟨0, Utf8.accept, []⟩ with ⟨t, ht, hstate⟩ | ⟨hnone, hrej⟩
  · rw [ht, Option.bind_some, hstate]
    split_ifs with h <;> simp [h]
  · rw [hnone, hrej]
    simp [Utf8.accept, Utf8.reject]

mutual

/-- `dump` throws exactly if some string in the value is not well-formed UTF-8. -/
theorem isSome_dump (fmt : FloatFormat) :
    ∀ j : Json, (dump fmt j).isSome = true ↔ ∀ s ∈ strings j, Utf8 s
  | .null => by simp [dump, strings]
  | .boolean _ => by simp [dump, strings]
  | .numberInteger _ => by simp [dump, strings]
  | .numberUnsigned _ => by simp [dump, strings]
  | .numberFloat _ => by simp [dump, strings]
  | .string s => by simp [dump, strings, isSome_dumpEscaped]
  | .array elements => by simp [dump, strings, isSome_dumpElements fmt elements]
  | .object members => by simp [dump, strings, isSome_dumpMembers fmt members]

theorem isSome_dumpElements (fmt : FloatFormat) :
    ∀ js : List Json, (dumpElements fmt js).isSome = true ↔ ∀ s ∈ elementStrings js, Utf8 s
  | [] => by simp [dumpElements, elementStrings]
  | j :: js => by
    have hj := isSome_dump fmt j
    have hjs := isSome_dumpElements fmt js
    rw [Option.isSome_iff_exists] at hj hjs
    simp [dumpElements, elementStrings, Option.isSome_iff_exists, Option.bind_eq_some_iff,
      or_imp, forall_and, ← hj, ← hjs]

theorem isSome_dumpMembers (fmt : FloatFormat) :
    ∀ ms : List (Bytes × Json), (dumpMembers fmt ms).isSome = true ↔ ∀ s ∈ memberStrings ms, Utf8 s
  | [] => by simp [dumpMembers, memberStrings]
  | m :: ms => by
    have hm := isSome_dumpMember fmt m
    have hms := isSome_dumpMembers fmt ms
    rw [Option.isSome_iff_exists] at hm hms
    simp [dumpMembers, memberStrings, Option.isSome_iff_exists, Option.bind_eq_some_iff,
      or_imp, forall_and, ← hm, ← hms]

theorem isSome_dumpMember (fmt : FloatFormat) :
    ∀ m : Bytes × Json, (dumpMember fmt m).isSome = true ↔ ∀ s ∈ pairStrings m, Utf8 s
  | (key, value) => by
    have hkey := isSome_dumpEscaped key
    have hvalue := isSome_dump fmt value
    rw [Option.isSome_iff_exists] at hkey hvalue
    simp [dumpMember, pairStrings, Option.isSome_iff_exists, Option.bind_eq_some_iff, ← hkey,
      ← hvalue]

end

/-- A value that `dump` does not throw on. -/
def Writable (j : Json) : Prop := ∀ s ∈ strings j, Utf8 s

theorem isSome_dump_iff (fmt : FloatFormat) (j : Json) :
    (dump fmt j).isSome = true ↔ j.Writable := isSome_dump fmt j

@[simp] theorem writable_null : null.Writable := by simp [Writable, strings]

@[simp] theorem writable_boolean (b : Bool) : (boolean b).Writable := by simp [Writable, strings]

@[simp] theorem writable_numberInteger (i : ℤ) : (numberInteger i).Writable := by
  simp [Writable, strings]

@[simp] theorem writable_numberUnsigned (n : ℕ) : (numberUnsigned n).Writable := by
  simp [Writable, strings]

@[simp] theorem writable_numberFloat (x : Double) : (numberFloat x).Writable := by
  simp [Writable, strings]

@[simp] theorem writable_string (s : Bytes) : (string s).Writable ↔ Utf8 s := by
  simp [Writable, strings]

theorem writable_array (js : List Json) : (array js).Writable ↔ ∀ j ∈ js, j.Writable := by
  rw [Writable, strings]
  induction js with
  | nil => simp [elementStrings]
  | cons j js ih =>
    rw [elementStrings, List.forall_mem_append, ih, List.forall_mem_cons]
    rfl

theorem writable_object (ms : List (Bytes × Json)) :
    (object ms).Writable ↔ ∀ m ∈ ms, Utf8 m.1 ∧ m.2.Writable := by
  rw [Writable, strings]
  induction ms with
  | nil => simp [memberStrings]
  | cons m ms ih =>
    obtain ⟨key, value⟩ := m
    rw [memberStrings, pairStrings, List.forall_mem_append, ih, List.forall_mem_cons,
      List.forall_mem_cons]
    rfl

theorem writable_insertAll {ps ms : List (Bytes × Json)} (h : (keys ps ++ keys ms).Nodup) :
    (object (insertAll ps ms)).Writable ↔ (object ps).Writable ∧ (object ms).Writable := by
  rw [writable_object, writable_object, writable_object, ← List.forall_mem_append]
  exact forall_congr' fun m => imp_congr (insertAll_perm h).mem_iff Iff.rfl

theorem head_decimal (n : ℕ) : ∃ b ∈ (decimal n).head?, isDigit b = true := by
  cases h : decimal n with
  | nil => exact absurd h (decimal_ne_nil n)
  | cons b s => exact ⟨b, by simp, decimal_digits n b (by simp [h])⟩

theorem ne_of_isDigit {b : UInt8} (h : isDigit b = true) : b ≠ 0x69 := by
  rintro rfl
  exact absurd h (by decide)

/-- JSON text starts in many ways, but not with an `i`. -/
theorem head_dump {fmt : FloatFormat} {j : Json} {text : Bytes} (h : dump fmt j = some text) :
    ∃ b ∈ text.head?, b ≠ 0x69 := by
  cases j with
  | null =>
    cases h
    decide
  | boolean b =>
    cases h
    cases b <;> decide
  | numberInteger i =>
    cases h
    rw [dumpInteger]
    split_ifs
    · exact ⟨0x2d, by simp [ascii], by decide⟩
    · obtain ⟨b, hb, hdigit⟩ := head_decimal i.natAbs
      exact ⟨b, by simpa using hb, ne_of_isDigit hdigit⟩
  | numberUnsigned n =>
    cases h
    obtain ⟨b, hb, hdigit⟩ := head_decimal n
    exact ⟨b, hb, ne_of_isDigit hdigit⟩
  | numberFloat x =>
    cases h
    cases x with
    | finite q =>
      obtain ⟨b, hb, hminus | hdigit⟩ := fmt.head q
      · exact ⟨b, hb, by simp [hminus]⟩
      · exact ⟨b, hb, ne_of_isDigit hdigit⟩
    | inf s => exact ⟨0x6e, by simp [dumpFloat, ascii], by decide⟩
    | nan => exact ⟨0x6e, by simp [dumpFloat, ascii], by decide⟩
  | string s =>
    obtain ⟨t, -, rfl⟩ := Option.map_eq_some_iff.mp h
    exact ⟨0x22, by simp [quote], by decide⟩
  | array elements =>
    obtain ⟨t, -, rfl⟩ := Option.map_eq_some_iff.mp h
    exact ⟨0x5b, by simp [ascii], by decide⟩
  | object members =>
    obtain ⟨t, -, rfl⟩ := Option.map_eq_some_iff.mp h
    exact ⟨0x7b, by simp [ascii], by decide⟩

end Json

end ComputerMonitor
