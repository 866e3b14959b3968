import ComputerMonitor.Support.Loop
import ComputerMonitor.Support.ToChars

/-! The serializer of the JSON library with its two character arrays, as `dump()` runs it: compact,
not escaping to ASCII, and strict. -/

namespace ComputerMonitor

open Bytes

/-- What can keep the serializer from going on: the `type_error` that it throws, an access outside
an array, or a loop that takes more rounds than the model gives it. -/
inductive Fault
  | typeError
  | outside
  | endless
  deriving DecidableEq

/-- The value, or the fault that stands for its absence. -/
def Fault.orElse {α : Type} (fault : Fault) : Option α → Except Fault α
  | some a => .ok a
  | none => .error fault

section

variable {α β : Type} (fault : Fault)

@[simp] theorem Fault.orElse_some (a : α) : fault.orElse (some a) = .ok a := rfl

@[simp] theorem Fault.orElse_none : fault.orElse (none : Option α) = .error fault := rfl

@[simp] theorem Fault.ok_bind (a : α) (f : α → Except Fault β) : (.ok a >>= f) = f a := rfl

end

/-- A `std::array` of characters. -/
structure Buffer (n : ℕ) where
  bytes : Bytes
  size : bytes.length = n

namespace Buffer

variable {n : ℕ}

/-- An assignment to `buffer[i]`. -/
def put (buffer : Buffer n) (i : ℕ) (c : UInt8) : Except Fault (Buffer n) :=
  if i < n then .ok ⟨buffer.bytes.set i c, by rw [List.length_set, buffer.size]⟩
  else .error .outside

def overwrite (buffer : Buffer n) (t : Bytes) (h : t.length ≤ n) : Buffer n :=
  ⟨t ++ buffer.bytes.drop t.length, by simp [buffer.size, h]⟩

end Buffer

/-- The output and the arrays. -/
structure Serializer where
  out : Bytes
  numberBuffer : Buffer 64
  stringBuffer : Buffer 512

namespace Serializer

def writeCharacters (t : Bytes) (s : Serializer) : Except Fault Serializer :=
  .ok { s with out := s.out ++ t }

/-! ### `dump_integer` -/

/-- `number_buffer` and `buffer_ptr` -/
structure Cursor where
  buffer : Buffer 64
  ptr : ℕ

/-- `*(--buffer_ptr) = c` -/
def Cursor.writeBefore (c : UInt8) (s : Cursor) : Except Fault Cursor :=
  if 0 < s.ptr then (s.buffer.put (s.ptr - 1) c).map fun buffer => ⟨buffer, s.ptr - 1⟩
  else .error .outside

/-- `digits_to_99` -/
def digitsTo99 : List (UInt8 × UInt8) :=
  (List.range 100).map fun i => (digitByte (i / 10), digitByte (i % 10))

def Cursor.writeDigits (digitsIndex : ℕ) (s : Cursor) : Except Fault Cursor := do
  let digits ← Fault.outside.orElse digitsTo99[digitsIndex]?
  let s ← s.writeBefore digits.2
  s.writeBefore digits.1

def countStep (s : UInt64 × ℕ) : (UInt64 × ℕ) ⊕ ℕ :=
  if s.1 < 10 then .inr s.2
  else if s.1 < 100 then .inr (s.2 + 1)
  else if s.1 < 1000 then .inr (s.2 + 2)
  else if s.1 < 10000 then .inr (s.2 + 3)
  else .inl (s.1 / 10000, s.2 + 4)

def countDigits (x : UInt64) : Except Fault ℕ := Fault.endless.orElse (Loop.run countStep 5 (x, 1))

/-- The `while` loop, and at its end the one or two digits that are left. -/
def writeStep (s : Cursor × UInt64) : (Cursor × UInt64) ⊕ Except Fault Cursor :=
  if 100 ≤ s.2 then
    match s.1.writeDigits (s.2 % 100).toNat with
    | .ok t => .inl (t, s.2 / 100)
    | .error fault => .inr (.error fault)
  else if 10 ≤ s.2 then .inr (s.1.writeDigits s.2.toNat)
  else .inr (s.1.writeBefore (0x30 + s.2.toUInt8))

/-- `nChars` characters, the last of them the digits of `absValue`.  The pointer is only moved where
the assertion holds. -/
def writeNumber (buffer : Buffer 64) (absValue : UInt64) (nChars : ℕ) (s : Serializer) :
    Except Fault Serializer :=
  if nChars < 64 - 1 then do
    let result ← Fault.endless.orElse (Loop.run writeStep 10 (⟨buffer, nChars⟩, absValue))
    let cursor ← result
    writeCharacters (cursor.buffer.bytes.take nChars) { s with numberBuffer := cursor.buffer }
  else .error .outside

def removeSign (x : Int64) : UInt64 := (-(x + 1)).toUInt64 + 1

/-- `dump_integer` of a `number_unsigned_t` -/
def dumpUnsigned (x : UInt64) (s : Serializer) : Except Fault Serializer :=
  if x = 0 then writeCharacters (ascii "0") s
  else do
    let nChars ← countDigits x
    writeNumber s.numberBuffer x nChars s

/-- `dump_integer` of a `number_integer_t` -/
def dumpSigned (x : Int64) (s : Serializer) : Except Fault Serializer :=
  if x = 0 then writeCharacters (ascii "0") s
  else if x < 0 then do
    let buffer ← s.numberBuffer.put 0 0x2d
    let nChars ← countDigits (removeSign x)
    writeNumber buffer (removeSign x) (1 + nChars) s
  else dumpUnsigned x.toUInt64 s

def dumpFloat (grisu2 : ℚ → Digits) : Double → Serializer → Except Fault Serializer
  | .finite q, s =>
    if h : (toChars grisu2 q).length ≤ 64 then
      writeCharacters (toChars grisu2 q)
        { s with numberBuffer := s.numberBuffer.overwrite (toChars grisu2 q) h }
    else .error .outside
  | .inf _, s => writeCharacters (ascii "null") s
  | .nan, s => writeCharacters (ascii "null") s

/-! ### `dump_escaped` -/

/-- The variables of `dump_escaped`.  What only the lenient error handlers read is left out. -/
structure StringState where
  codepoint : UInt32
  state : UInt8
  bytes : ℕ
  serializer : Serializer

namespace StringState

/-- `string_buffer[bytes++] = c` -/
def put (c : UInt8) (e : StringState) : Except Fault StringState :=
  (e.serializer.stringBuffer.put e.bytes c).map fun buffer =>
    { e with bytes := e.bytes + 1, serializer := { e.serializer with stringBuffer := buffer } }

def puts (t : Bytes) (e : StringState) : Except Fault StringState :=
  t.foldlM (fun e c => e.put c) e

/-- The characters for a complete code point.  `snprintf` also writes a NUL behind its six. -/
def putCodepoint (codepoint : UInt32) (byte : UInt8) (e : StringState) :
    Except Fault StringState :=
  if codepoint = 0x08 then e.puts (ascii "\\b")
  else if codepoint = 0x09 then e.puts (ascii "\\t")
  else if codepoint = 0x0a then e.puts (ascii "\\n")
  else if codepoint = 0x0c then e.puts (ascii "\\f")
  else if codepoint = 0x0d then e.puts (ascii "\\r")
  else if codepoint = 0x22 then e.puts (ascii "\\\"")
  else if codepoint = 0x5c then e.puts (ascii "\\\\")
  else if codepoint ≤ 0x1f then
    (e.puts (Json.unicodeEscape codepoint ++ [0])).map fun e => { e with bytes := e.bytes - 1 }
  else e.put byte

/-- Thirteen places must be left for the next code point. -/
def flush (e : StringState) : Except Fault StringState :=
  if 512 - e.bytes < 13 then
    (writeCharacters (e.serializer.stringBuffer.bytes.take e.bytes) e.serializer).map fun s =>
      { e with bytes := 0, serializer := s }
  else .ok e

def step (e : StringState) (byte : UInt8) : Except Fault StringState :=
  let codepoint := Utf8.codepoint e.state e.codepoint byte
  let state := Utf8.next e.state byte
  let e := { e with codepoint, state }
  if state = Utf8.accept then (e.putCodepoint codepoint byte).bind flush
  else if state = Utf8.reject then .error .typeError
  else e.put byte

end StringState

def dumpEscaped (t : Bytes) (s : Serializer) : Except Fault Serializer := do
  let e ← t.foldlM StringState.step ⟨0, Utf8.accept, 0, s⟩
  if e.state = Utf8.accept then
    if 0 < e.bytes then
      writeCharacters (e.serializer.stringBuffer.bytes.take e.bytes) e.serializer
    else return e.serializer
  else .error .typeError

/-! ### `dump` -/

mutual

def dump (grisu2 : ℚ → Digits) : Json → Serializer → Except Fault Serializer
  | .null => writeCharacters (ascii "null")
  | .boolean b => writeCharacters (if b then ascii "true" else ascii "false")
  | .numberInteger i => dumpSigned (Int64.ofInt i)
  | .numberUnsigned n => dumpUnsigned (UInt64.ofNat n)
  | .numberFloat x => dumpFloat grisu2 x
  | .string s => writeCharacters [0x22] >=> dumpEscaped s >=> writeCharacters [0x22]
  | .array [] => writeCharacters (ascii "[]")
  | .array (j :: js) =>
    writeCharacters (ascii "[") >=> dump grisu2 j >=> dumpElements grisu2 js >=>
      writeCharacters (ascii "]")
  | .object [] => writeCharacters (ascii "\x7b\x7d")
  | .object (m :: ms) =>
    writeCharacters (ascii "\x7b") >=> dumpMember grisu2 m >=> dumpMembers grisu2 ms >=>
      writeCharacters (ascii "\x7d")

/-- The elements behind the first, each after a comma. -/
def dumpElements (grisu2 : ℚ → Digits) : List Json → Serializer → Except Fault Serializer
  | [] => .ok
  | j :: js => writeCharacters (ascii ",") >=> dump grisu2 j >=> dumpElements grisu2 js

def dumpMembers (grisu2 : ℚ → Digits) :
    List (Bytes × Json) → Serializer → Except Fault Serializer
  | [] => .ok
  | m :: ms => writeCharacters (ascii ",") >=> dumpMember grisu2 m >=> dumpMembers grisu2 ms

def dumpMember (grisu2 : ℚ → Digits) : Bytes × Json → Serializer → Except Fault Serializer
  | (key, value) =>
    writeCharacters [0x22] >=> dumpEscaped key >=> writeCharacters (ascii "\":") >=>
      dump grisu2 value

end

def start : Serializer :=
  ⟨[], ⟨List.replicate 64 0, List.length_replicate⟩, ⟨List.replicate 512 0, List.length_replicate⟩⟩

/-- `dump()` of a value, with a serializer of its own. -/
def text (grisu2 : ℚ → Digits) (j : Json) : Except Fault Bytes := (dump grisu2 j start).map out

end Serializer

end ComputerMonitor
