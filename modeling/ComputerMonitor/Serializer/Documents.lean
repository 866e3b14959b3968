import ComputerMonitor.Serializer.Strings
import ComputerMonitor.Server.Cache
import ComputerMonitor.Server.Encoding
import ComputerMonitor.Support.JsonText

/-! The serializer writes every document of the server, in its arrays, as `dump` says. -/

namespace ComputerMonitor

open Bytes Assoc

namespace Json

/-- The whole numbers in it have their 64 bits. -/
inductive Fits : Json → Prop
  | null : Fits .null
  | boolean (b : Bool) : Fits (.boolean b)
  | numberInteger (i : Int64) : Fits (.numberInteger i.toInt)
  | numberUnsigned (n : UInt64) : Fits (.numberUnsigned n.toNat)
  | numberFloat (x : Double) : Fits (.numberFloat x)
  | string (s : Bytes) : Fits (.string s)
  | array {js : List Json} : (∀ j ∈ js, Fits j) → Fits (.array js)
  | object {ms : List (Bytes × Json)} : (∀ m ∈ ms, Fits m.2) → Fits (.object ms)

theorem Fits.of_mem_members {j : Json} (h : j.Fits) : ∀ m ∈ j.members, m.2.Fits := by
  cases h with
  | object hms => exact hms
  | null | boolean | numberInteger | numberUnsigned | numberFloat | string | array =>
    simp [members]

theorem commas_eq_append (t : Bytes) (ts : List Bytes) :
    commas (t :: ts) = t ++ ts.flatMap (ascii "," ++ ·) := by
  induction ts generalizing t with
  | nil => simp [commas]
  | cons u ts ih =>
    have hcons := ih u
    simp only [commas, List.intersperse_cons_cons, List.flatten_cons, List.flatMap_cons] at hcons ⊢
    rw [hcons, List.append_assoc]

end Json

namespace Serializer

open Json (Fits)

variable (grisu2 : ℚ → Digits)

theorem emits_dumpMember {m : Bytes × Json}
    (h : Emits (dump grisu2 m.2) (Json.dump (toCharsFormat grisu2) m.2)) :
    Emits (dumpMember grisu2 m) (Json.dumpMember (toCharsFormat grisu2) m) := by
  obtain ⟨key, value⟩ := m
  rw [dumpMember, Json.dumpMember]
  apply Emits.congr ((emits_writeCharacters _).bind ((emits_dumpEscaped key).bind
    ((emits_writeCharacters _).bind h)))
  cases Json.dumpEscaped key with
  | none => rfl
  | some k =>
    cases Json.dump (toCharsFormat grisu2) value with
    | none => rfl
    | some v => simp [Json.quote, ascii]

/-- `rest` writes each of its elements with `one`, after a comma. -/
structure Separated {α : Type*} (one : α → Serializer → Except Fault Serializer)
    (rest : List α → Serializer → Except Fault Serializer) (text : α → Option Bytes)
    (texts : List α → Option (List Bytes)) : Prop where
  nil : rest [] = .ok
  cons : ∀ x xs, rest (x :: xs) = writeCharacters (ascii ",") >=> one x >=> rest xs
  texts_nil : texts [] = some []
  texts_cons : ∀ x xs, texts (x :: xs) = (text x).bind fun t => (texts xs).map (t :: ·)

section Separated

variable {α : Type*} {one : α → Serializer → Except Fault Serializer}
  {rest : List α → Serializer → Except Fault Serializer} {text : α → Option Bytes}
  {texts : List α → Option (List Bytes)}

theorem Separated.emits_rest (h : Separated one rest text texts) {xs : List α}
    (hxs : ∀ x ∈ xs, Emits (one x) (text x)) :
    Emits (rest xs) ((texts xs).map (·.flatMap (ascii "," ++ ·))) := by
  induction xs with
  | nil =>
    rw [h.nil, h.texts_nil]
    exact emits_ok
  | cons x xs ih =>
    rw [List.forall_mem_cons] at hxs
    rw [h.cons, h.texts_cons]
    apply Emits.congr ((emits_writeCharacters _).bind (hxs.1.bind (ih hxs.2)))
    cases text x with
    | none => rfl
    | some t => cases texts xs <;> simp

/-- The whole list between its brackets. -/
theorem Separated.emits_list (h : Separated one rest text texts) {x : α} {xs : List α}
    (hxs : ∀ x' ∈ x :: xs, Emits (one x') (text x')) (front back : Bytes) :
    Emits (writeCharacters front >=> one x >=> rest xs >=> writeCharacters back)
      ((texts (x :: xs)).map fun ts => front ++ Json.commas ts ++ back) := by
  rw [List.forall_mem_cons] at hxs
  rw [h.texts_cons]
  apply Emits.congr ((emits_writeCharacters front).bind
    (hxs.1.bind ((h.emits_rest hxs.2).bind (emits_writeCharacters back))))
  cases text x with
  | none => rfl
  | some t => cases texts xs <;> simp [Json.commas_eq_append]

end Separated

theorem separated_elements : Separated (dump grisu2) (dumpElements grisu2)
    (Json.dump (toCharsFormat grisu2)) (Json.dumpElements (toCharsFormat grisu2)) where
  nil := by rw [dumpElements]
  cons j js := by rw [dumpElements]
  texts_nil := by rw [Json.dumpElements]
  texts_cons j js := by
    rw [Json.dumpElements]
    cases Json.dumpElements (toCharsFormat grisu2) js <;> rfl

theorem separated_members : Separated (dumpMember grisu2) (dumpMembers grisu2)
    (Json.dumpMember (toCharsFormat grisu2)) (Json.dumpMembers (toCharsFormat grisu2)) where
  nil := by rw [dumpMembers]
  cons m ms := by rw [dumpMembers]
  texts_nil := by rw [Json.dumpMembers]
  texts_cons m ms := by
    rw [Json.dumpMembers]
    cases Json.dumpMembers (toCharsFormat grisu2) ms <;> rfl

/-- The text of the value, whatever is in the arrays. -/
theorem emits_dump {j : Json} (h : Fits j) :
    Emits (dump grisu2 j) (Json.dump (toCharsFormat grisu2) j) := by
  induction h with
  | null => exact emits_writeCharacters _
  | boolean b => exact emits_writeCharacters _
  | numberInteger i =>
    rw [dump, Json.dump, Int64.ofInt_toInt]
    exact emits_dumpSigned i
  | numberUnsigned n =>
    rw [dump, Json.dump, UInt64.ofNat_toNat]
    exact emits_dumpUnsigned n
  | numberFloat x => exact emits_dumpFloat grisu2 x
  | string s =>
    rw [dump, Json.dump]
    apply Emits.congr ((emits_writeCharacters _).bind
      ((emits_dumpEscaped s).bind (emits_writeCharacters _)))
    cases Json.dumpEscaped s <;> simp [Json.quote]
  | @array js _ ih =>
    cases js with
    | nil => exact emits_writeCharacters _
    | cons j js =>
      rw [dump, Json.dump]
      exact (separated_elements grisu2).emits_list ih _ _
  | @object ms _ ih =>
    cases ms with
    | nil => exact emits_writeCharacters _
    | cons m ms =>
      rw [dump, Json.dump]
      apply (separated_members grisu2).emits_list
      intro m' hm'
      exact emits_dumpMember grisu2 (ih m' hm')

theorem text_eq {j : Json} (h : Fits j) :
    text grisu2 j = Fault.typeError.orElse (j.dump (toCharsFormat grisu2)) := by
  rw [text, emits_dump grisu2 h start]
  cases Json.dump (toCharsFormat grisu2) j <;> rfl

/-- With its two arrays the serializer writes exactly the values whose strings are UTF-8, and what
it writes reads back as the value.  All others it refuses with the `type_error`. -/
theorem exists_text_iff {j : Json} (h : Fits j) :
    ((∃ t, text grisu2 j = .ok t ∧
      JsonTree.ofText t = some (j.plain (toCharsFormat grisu2))) ↔ j.Writable) ∧
      (text grisu2 j = .error .typeError ↔ ¬j.Writable) := by
  rw [← Json.isSome_dump_iff (toCharsFormat grisu2), text_eq grisu2 h]
  cases ht : j.dump (toCharsFormat grisu2) with
  | none => simp
  | some t => simpa using Json.ofText_dump (numeric_toCharsFormat grisu2) ht

/-- The digits of 2.5. -/
def sampleDigits : Digits :=
  ⟨ascii "25", -1, by decide, by decide, by simp [ascii, isDigit], by simp [ascii], by simp [ascii]⟩

/-- A value with the least and the greatest whole numbers. -/
def extremes : Json :=
  .object [(ascii "name", .string (ascii "/data")),
    (ascii "state", .numberInteger Int64.minValue.toInt),
    (ascii "total", .numberUnsigned (-1 : UInt64).toNat),
    (ascii "usage", .numberFloat (.finite (5 / 2)))]

theorem exists_text_iff_extremes : ∃ t, text (fun _ => sampleDigits) extremes = .ok t ∧
    JsonTree.ofText t = some (extremes.plain (toCharsFormat fun _ => sampleDigits)) := by
  have hfits : Fits extremes := by
    refine .object ?_
    simp only [List.forall_mem_cons]
    exact ⟨.string _, .numberInteger _, .numberUnsigned _, .numberFloat _, by simp⟩
  have hascii : ∀ key ∈ ["name", "/data", "state", "total", "usage"], Utf8 (ascii key) := by
    intro key hkey
    apply utf8_of_ascii
    revert key
    simp [Utf8.Ascii, ascii]
  refine (exists_text_iff (fun _ => sampleDigits) hfits).1.mpr ?_
  rw [extremes, Json.writable_object]
  simp [hascii]

end Serializer

namespace Monitor

open Json

theorem fits_getCPU {m m' : Monitor} {r : Readings} {cpu : Json}
    (h : m.getCPU r = some (cpu, m')) : cpu.Fits := by
  obtain ⟨rfl, -, -⟩ := getCPU_cases h
  rw [cpuEntry_eq]
  refine .object (List.forall_mem_singleton.mpr (.object ?_))
  simp [Fits.string]

theorem fits_getMemory {r : Readings} {memory : Json} (h : getMemory r = some memory) :
    memory.Fits := by
  simp only [getMemory, Option.bind_eq_bind, Option.bind_eq_some_iff, null_set,
    Option.some.injEq] at h
  obtain ⟨total, -, unused, -, usage, -, rfl⟩ := h
  rw [memoryEntry_eq]
  refine .object (List.forall_mem_singleton.mpr (.object ?_))
  simp [Fits.string, Fits.numberUnsigned]

theorem fits_diskMembers (num : ℕ) (disks : List DFStructInfo) :
    ∀ m ∈ diskMembers num disks, m.2.Fits := by
  induction disks generalizing num with
  | nil => simp [diskMembers]
  | cons it disks ih =>
    rw [diskMembers, List.forall_mem_cons, diskEntry_eq]
    exact ⟨.object (by simp [Fits.string, Fits.numberFloat]), ih (num + 1)⟩

theorem fits_getInfoByJson {m m' : Monitor} {r : Readings} {j : Json}
    (h : m.getInfoByJson r = some (j, m')) : j.Fits := by
  have hparts := h
  simp only [getInfoByJson, getDisk, Option.bind_eq_bind, Option.bind_eq_some_iff, Option.pure_def,
    Option.some.injEq, Prod.mk.injEq] at hparts
  obtain ⟨⟨cpu, m''⟩, hcpu, memory, hmemory, disk, ⟨disks, hdisks, -⟩, -, rfl⟩ := hparts
  by_cases hne : disks = []
  · subst hne
    rw [getInfoByJson_nil hcpu hmemory hdisks] at h
    cases h
    exact .null
  · rw [getInfoByJson_of_ne_nil hcpu hmemory hdisks hne] at h
    cases h
    refine .object fun member hmember => ?_
    rcases mem_insertAll hmember with hdisk | hpart
    · rcases mem_insertAll hdisk with hdisk | hnil
      · exact fits_diskMembers 0 disks member hdisk
      · cases hnil
    · rcases List.mem_append.mp hpart with hpart | hpart
      · exact (fits_getCPU hcpu).of_mem_members member hpart
      · exact (fits_getMemory hmemory).of_mem_members member hpart

theorem fits_getDisk {r : Readings} {disk : Json} (h : getDisk r = some disk) : disk.Fits := by
  simp only [getDisk, Option.bind_eq_bind, Option.bind_eq_some_iff, addDisks_null,
    Option.some.injEq] at h
  obtain ⟨disks, -, rfl⟩ := h
  split_ifs
  · exact .null
  · refine .object fun member hmember => ?_
    exact fits_diskMembers 0 disks member ((mem_insertAll hmember).resolve_right (by simp))

theorem fits_disksInfoJson {disks : List DFStructInfo} {total : Double} {j : Json}
    (h : disksInfoJson disks total = some j) : j.Fits := by
  rw [disksInfoJson_eq, Option.some.injEq] at h
  have hone : Fits (.numberInteger 1) := .numberInteger 1
  have hzero : Fits (.numberInteger 0) := .numberInteger 0
  have hlist : ∀ e ∈ disks.map entry, e.Fits := by
    intro e he
    obtain ⟨it, -, rfl⟩ := List.mem_map.mp he
    exact .object (by simp [Fits.string, Fits.boolean, hone, hzero])
  have htotal : Fits (.array [.string (ascii "total"), .numberFloat total]) :=
    .array (by simp [Fits.string, Fits.numberFloat])
  rw [← h]
  refine .object (List.forall_mem_singleton.mpr (.array ?_))
  rw [List.forall_mem_cons, List.forall_mem_singleton]
  refine ⟨?_, htotal⟩
  split_ifs
  · exact .null
  · exact .object (List.forall_mem_singleton.mpr (.array hlist))

/-- The two documents of two numbers. -/
theorem fits_data (first second : Bytes) (x y : Double) :
    (object [(ascii "data", .object [(first, .numberFloat x), (second, .numberFloat y)])]).Fits :=
  .object (List.forall_mem_singleton.mpr (.object (by simp [Fits.numberFloat])))

end Monitor

namespace Server

open Monitor

theorem fits_document {c : Command} {m m' : Monitor} {r : Readings} {j : Json}
    (h : document c m r = some (j, m')) : j.Fits := by
  cases c with
  | requestBaseInfo => exact fits_getInfoByJson h
  | disksOverview =>
    obtain ⟨j', hj, heq⟩ := Option.map_eq_some_iff.mp h
    cases heq
    simp only [diskInfoOverview, Option.bind_eq_bind, Option.bind_eq_some_iff, overviewJson_eq,
      Option.some.injEq] at hj
    obtain ⟨lastCount, -, useCount, -, rfl⟩ := hj
    exact fits_data _ _ _ _
  | disksInfo =>
    obtain ⟨j', hj, heq⟩ := Option.map_eq_some_iff.mp h
    cases heq
    simp only [disksInfo, Option.bind_eq_bind, Option.bind_eq_some_iff] at hj
    obtain ⟨disks, -, total, -, hj⟩ := hj
    exact fits_disksInfoJson hj
  | diskIO =>
    rw [document, disksIO_eq, Option.map_some, Option.some.injEq, Prod.mk.injEq] at h
    rw [← h.1]
    exact fits_data _ _ _ _

/-- What ends the program in the middle of a document: an exception from reading the machine, or a
fault of the serializer. -/
inductive Failure
  | reading
  | serializer (fault : Fault)
  deriving DecidableEq

def Failure.ofReading {α : Type} : Option α → Except Failure α
  | some a => .ok a
  | none => .error .reading

variable (encode : Json → Except Fault Bytes)

/-- A text from `encode`. -/
def written (j : Json) : Except Failure Bytes := (encode j).mapError .serializer

/-- `reply`, with the texts of `encode`. -/
def replyWith (c : Command) (d : Desk) : Except Failure (Bytes × Desk) := do
  let (j, m) ← Failure.ofReading (document c d.monitor (d.readings 0))
  let data ← written encode j
  return (data, d.next m)

/-- `startup`, with the texts of `encode`. -/
def startupWith (r : Readings) : Except Failure Monitor := do
  let memory ← Failure.ofReading (getMemory r)
  let _ ← written encode memory
  let disk ← Failure.ofReading (getDisk r)
  let _ ← written encode disk
  let (cpu, m) ← Failure.ofReading (Monitor.create.getCPU r)
  let _ ← written encode cpu
  return m

/-- `dump` as `encode`: it throws where it has no text. -/
def dumpOrThrow (fmt : Json.FloatFormat) (j : Json) : Except Fault Bytes :=
  Fault.typeError.orElse (j.dump fmt)

section Failure

variable {α β : Type}

theorem Failure.ofReading_bind_congr {r : Option α} {f g : α → Except Failure β}
    (h : ∀ a, r = some a → f a = g a) :
    (Failure.ofReading r).bind f = (Failure.ofReading r).bind g := by
  cases r with
  | none => rfl
  | some a => exact h a rfl

/-- `x` gives what `r` gives, and where `r` gives nothing it throws: while the machine is read, or
the `type_error`. -/
structure Throws (x : Except Failure α) (r : Option α) : Prop where
  toOption : x.toOption = r
  fault : ∀ fault, x = .error (.serializer fault) → fault = .typeError

theorem throws_ok (a : α) : Throws (.ok a) (some a) := ⟨rfl, fun _ h => nomatch h⟩

theorem throws_ofReading (r : Option α) : Throws (Failure.ofReading r) r := by
  cases r with
  | none => exact ⟨rfl, fun _ h => nomatch h⟩
  | some a => exact throws_ok a

theorem Throws.bind {x : Except Failure α} {r : Option α} {f : α → Except Failure β}
    {g : α → Option β} (h : Throws x r) (hf : ∀ a, Throws (f a) (g a)) :
    Throws (x.bind f) (r.bind g) := by
  cases x with
  | error failure =>
    rw [← h.toOption]
    refine ⟨rfl, fun fault hfault => h.fault fault ?_⟩
    exact congrArg Except.error (Except.error.inj hfault)
  | ok a =>
    rw [← h.toOption]
    exact hf a

end Failure

theorem throws_written (fmt : Json.FloatFormat) (j : Json) :
    Throws (written (dumpOrThrow fmt) j) (j.dump fmt) := by
  rw [written, dumpOrThrow]
  cases j.dump fmt with
  | none =>
    refine ⟨rfl, fun fault h => ?_⟩
    exact (Failure.serializer.inj (Except.error.inj h)).symm
  | some t => exact throws_ok t

theorem throws_replyWith (fmt : Json.FloatFormat) (c : Command) (d : Desk) :
    Throws (replyWith (dumpOrThrow fmt) c d) (reply fmt c d) :=
  (throws_ofReading _).bind fun p => (throws_written fmt p.1).bind fun _ => throws_ok _

theorem throws_startupWith (fmt : Json.FloatFormat) (r : Readings) :
    Throws (startupWith (dumpOrThrow fmt) r) (startup fmt r) :=
  (throws_ofReading _).bind fun memory => (throws_written fmt memory).bind fun _ =>
    (throws_ofReading _).bind fun disk => (throws_written fmt disk).bind fun _ =>
      (throws_ofReading _).bind fun p => (throws_written fmt p.1).bind fun _ => throws_ok _

theorem written_text (grisu2 : ℚ → Digits) {j : Json} (h : j.Fits) :
    written (Serializer.text grisu2) j = written (dumpOrThrow (toCharsFormat grisu2)) j :=
  congrArg (Except.mapError Failure.serializer) (Serializer.text_eq grisu2 h)

theorem replyWith_text (grisu2 : ℚ → Digits) (c : Command) (d : Desk) :
    replyWith (Serializer.text grisu2) c d =
      replyWith (dumpOrThrow (toCharsFormat grisu2)) c d := by
  refine Failure.ofReading_bind_congr ?_
  rintro ⟨j, m⟩ hdocument
  simp only [written_text grisu2 (fits_document hdocument)]

theorem startupWith_text (grisu2 : ℚ → Digits) (r : Readings) :
    startupWith (Serializer.text grisu2) r =
      startupWith (dumpOrThrow (toCharsFormat grisu2)) r := by
  refine Failure.ofReading_bind_congr fun memory hmemory => ?_
  rw [written_text grisu2 (fits_getMemory hmemory)]
  refine congrArg _ (funext fun _ => Failure.ofReading_bind_congr fun disk hdisk => ?_)
  rw [written_text grisu2 (fits_getDisk hdisk)]
  refine congrArg _ (funext fun _ => Failure.ofReading_bind_congr ?_)
  rintro ⟨cpu, m⟩ hcpu
  simp only [written_text grisu2 (fits_getCPU hcpu)]

/-- The server's texts, at the start and for every request, are those of the serializer.  On its
arrays it does what `dump` does on none: it throws exactly where `dump` throws, and no document
leads it out of an array or keeps it in a loop. -/
theorem serialized_eq (grisu2 : ℚ → Digits) :
    (∀ c d, replyWith (Serializer.text grisu2) c d =
        replyWith (dumpOrThrow (toCharsFormat grisu2)) c d ∧
      Throws (replyWith (Serializer.text grisu2) c d) (reply (toCharsFormat grisu2) c d)) ∧
    ∀ r, startupWith (Serializer.text grisu2) r =
        startupWith (dumpOrThrow (toCharsFormat grisu2)) r ∧
      Throws (startupWith (Serializer.text grisu2) r) (startup (toCharsFormat grisu2) r) := by
  refine ⟨fun c d => ⟨replyWith_text grisu2 c d, ?_⟩, fun r => ⟨startupWith_text grisu2 r, ?_⟩⟩
  · rw [replyWith_text]
    exact throws_replyWith (toCharsFormat grisu2) c d
  · rw [startupWith_text]
    exact throws_startupWith (toCharsFormat grisu2) r

end Server

end ComputerMonitor
