import ComputerMonitor.MemoryMonitor

/-! The lines of `/proc/meminfo` and what the loop of `GetMemoryInfo` reads off them. -/

namespace ComputerMonitor

open Bytes Scan Stdio

/-- A line `Key: value kB`, whatever its value. -/
structure MemEntry where
  key : Bytes
  pad : Bytes
  value : ℕ
  key_colon : 0x3a ∉ key
  key_newline : newline ∉ key
  pad_blank : Blank pad
  pad_ne : pad ≠ []
  pad_newline : newline ∉ pad
  short : (key ++ 0x3a :: (pad ++ (decimal value ++ ascii " kB"))).length < 254

namespace MemEntry

def text (e : MemEntry) : Bytes := e.key ++ 0x3a :: (e.pad ++ (decimal e.value ++ ascii " kB"))

/-- `%lu` stores the largest number for those that do not fit. -/
def stored (e : MemEntry) : UInt64 := .ofNat (min e.value (2 ^ 64 - 1))

/-- What a line means for the packet. -/
def store (e : MemEntry) (m : MemoryPacket) : MemoryPacket :=
  if e.key = ascii "MemTotal" then { m with memTotal := e.stored }
  else if e.key = ascii "MemFree" then { m with memFree := e.stored }
  else if e.key = ascii "Buffers" then { m with buffers := e.stored }
  else if e.key = ascii "Cached" then { m with cached := e.stored }
  else if e.key = ascii "Shmem" then { m with shmem := e.stored }
  else if e.key = ascii "SReclaimable" then { m with sReclaimable := e.stored }
  else m

theorem decimal_notMem {b : UInt8} (hb : isDigit b = false) (n : ℕ) : b ∉ decimal n := by
  intro h
  rw [decimal_digits n b h] at hb
  cases hb

theorem newline_notMem_text (e : MemEntry) : newline ∉ e.text := by
  have hdec : newline ∉ decimal e.value := decimal_notMem (by decide) _
  have hkB : newline ∉ ascii " kB" := by decide
  simp [text, e.key_newline, e.pad_newline, hdec, hkB, show newline ≠ 0x3a by decide]

/-- A test for a name with its colon accepts exactly the key it names, so no key that contains or
extends the name passes. -/
theorem strncmpEq_text (e : MemEntry) (name rest : Bytes) (hcolon : 0x3a ∉ name)
    (hnul : 0 ∉ name) :
    strncmpEq (e.text ++ rest) (name ++ [0x3a]) (name.length + 1) = true ↔ e.key = name := by
  have hlit : 0 ∉ name ++ [(0x3a : UInt8)] := by simp [hnul]
  have hpre := strncmpEq_iff_isPrefix (s := e.text ++ rest) hlit
  rw [List.length_append, List.length_singleton] at hpre
  rw [strncmpEq_comm, hpre]
  constructor
  · rintro ⟨t, ht⟩
    have htext : e.text ++ rest =
        e.key ++ 0x3a :: (e.pad ++ (decimal e.value ++ ascii " kB") ++ rest) := by simp [text]
    rw [htext, List.append_assoc, List.singleton_append] at ht
    have hspan := congrArg (List.takeWhile (· != 0x3a)) ht
    have hrun : ∀ {s t : Bytes}, 0x3a ∉ s → (s ++ 0x3a :: t).takeWhile (· != 0x3a) = s := by
      intro s t hs
      refine takeWhile_run (fun b hb => ?_) (by simp)
      simp only [bne_iff_ne, ne_eq]
      rintro rfl
      exact hs hb
    rw [hrun hcolon, hrun e.key_colon] at hspan
    exact hspan.symm
  · rintro rfl
    exact ⟨e.pad ++ (decimal e.value ++ ascii " kB") ++ rest, by simp [text]⟩

/-- The `%*s %lu` of the branches: the key with its colon is skipped and the value converts. -/
theorem scanField_text (e : MemEntry) (hsolid : Solid e.key) (hnul : 0 ∉ e.key) (field : UInt64) :
    MemoryPrivate.scanField (e.text ++ [newline]) field = e.stored := by
  have hword : Solid (e.key ++ [0x3a]) := by
    intro b hb
    rcases List.mem_append.mp hb with hb | hb
    · exact hsolid b hb
    · rw [List.mem_singleton.mp hb]
      decide
  have hcstr : cstr (e.text ++ [newline]) = e.text ++ [newline] := by
    have hpad : 0 ∉ e.pad := fun h => absurd (e.pad_blank 0 h) (by decide)
    have hdec : 0 ∉ decimal e.value := decimal_notMem (by decide) _
    have hkB : 0 ∉ ascii " kB" := by decide
    apply cstr_of_notMem
    simp [text, hnul, hpad, hdec, hkB, show (0 : UInt8) ≠ newline by decide]
  have htext : e.text ++ [newline] =
      [] ++ ((e.key ++ [0x3a]) ++ (e.pad ++ (decimal e.value ++ (ascii " kB" ++ [newline])))) := by
    simp [text]
  have hskip := read_skip .nil hword (by simp)
    (Ends.of_blank e.pad_blank e.pad_ne (t := decimal e.value ++ (ascii " kB" ++ [newline])))
  have hend : Stops isDigit (ascii " kB" ++ [newline]) := by simp [ascii, isDigit]
  have hval := read_ulong e.pad_blank e.value hend
  rw [MemoryPrivate.scanField, sscanf, hcstr, htext, scan_cons hskip, scan_cons hval]
  rfl

theorem assign_text (e : MemEntry) (m : MemoryPacket) :
    MemoryPrivate.assign (e.text ++ [newline]) m = e.store m := by
  have htotal : strncmpEq (e.text ++ [newline]) (ascii "MemTotal:") 9 = true ↔
      e.key = ascii "MemTotal" :=
    e.strncmpEq_text (ascii "MemTotal") [newline] (by decide) (by decide)
  have hfree : strncmpEq (e.text ++ [newline]) (ascii "MemFree:") 8 = true ↔
      e.key = ascii "MemFree" :=
    e.strncmpEq_text (ascii "MemFree") [newline] (by decide) (by decide)
  have hbuffers : strncmpEq (e.text ++ [newline]) (ascii "Buffers:") 8 = true ↔
      e.key = ascii "Buffers" :=
    e.strncmpEq_text (ascii "Buffers") [newline] (by decide) (by decide)
  have hcached : strncmpEq (e.text ++ [newline]) (ascii "Cached:") 7 = true ↔
      e.key = ascii "Cached" :=
    e.strncmpEq_text (ascii "Cached") [newline] (by decide) (by decide)
  have hshmem : strncmpEq (e.text ++ [newline]) (ascii "Shmem:") 6 = true ↔
      e.key = ascii "Shmem" :=
    e.strncmpEq_text (ascii "Shmem") [newline] (by decide) (by decide)
  have hreclaim : strncmpEq (e.text ++ [newline]) (ascii "SReclaimable:") 13 = true ↔
      e.key = ascii "SReclaimable" :=
    e.strncmpEq_text (ascii "SReclaimable") [newline] (by decide) (by decide)
  have hscan : ∀ {name : Bytes}, e.key = name → Solid name → 0 ∉ name → ∀ field,
      MemoryPrivate.scanField (e.text ++ [newline]) field = e.stored := by
    rintro _ rfl hsolid hnul field
    exact e.scanField_text hsolid hnul field
  simp only [MemoryPrivate.assign, store, htotal, hfree, hbuffers, hcached, hshmem, hreclaim]
  split_ifs with h1 h2 h3 h4 h5 h6
  · rw [hscan h1 (by decide) (by decide)]
  · rw [hscan h2 (by decide) (by decide)]
  · rw [hscan h3 (by decide) (by decide)]
  · rw [hscan h4 (by decide) (by decide)]
  · rw [hscan h5 (by decide) (by decide)]
  · rw [hscan h6 (by decide) (by decide)]
  · rfl

end MemEntry

/-- The names that the branches of the loop look for. -/
def fieldNames : List Bytes :=
  [ascii "MemTotal", ascii "MemFree", ascii "Buffers", ascii "Cached", ascii "Shmem",
    ascii "SReclaimable"]

/-- A line that no branch takes, whatever its text. -/
structure OtherLine where
  text : Bytes
  inLine : newline ∉ text
  short : text.length < 254
  other : ∀ name ∈ fieldNames, ¬name ++ [0x3a] <+: text

theorem OtherLine.strncmpEq_text (l : OtherLine) {name : Bytes} (hname : name ∈ fieldNames) :
    strncmpEq (l.text ++ [newline]) (name ++ [0x3a]) (name.length + 1) = false := by
  have hlit : 0 ∉ name ++ [(0x3a : UInt8)] ∧ newline ∉ name ++ [(0x3a : UInt8)] := by
    revert name
    decide
  have hline := strncmpEq_line hlit.1 hlit.2 l.text
  rw [List.length_append, List.length_singleton] at hline
  have hpre := strncmpEq_iff_isPrefix (s := l.text) hlit.1
  rw [List.length_append, List.length_singleton] at hpre
  rw [strncmpEq_comm, hline, ← Bool.not_eq_true, hpre]
  exact l.other name hname

theorem OtherLine.assign_text (l : OtherLine) (m : MemoryPacket) :
    MemoryPrivate.assign (l.text ++ [newline]) m = m := by
  have hfails := fun (name : Bytes) (hname : name ∈ fieldNames) => l.strncmpEq_text hname
  simp only [fieldNames, List.forall_mem_cons] at hfails
  obtain ⟨htotal, hfree, hbuffers, hcached, hshmem, hreclaim, -⟩ := hfails
  rw [MemoryPrivate.assign]
  erw [htotal, hfree, hbuffers, hcached, hshmem, hreclaim]
  rfl

/-! ### Documents -/

abbrev MeminfoLine := MemEntry ⊕ OtherLine

namespace MeminfoLine

def text : MeminfoLine → Bytes := Sum.elim MemEntry.text OtherLine.text

def store : MeminfoLine → MemoryPacket → MemoryPacket := Sum.elim MemEntry.store fun _ m => m

theorem newline_notMem_text (l : MeminfoLine) : newline ∉ text l := by
  cases l with
  | inl e => exact e.newline_notMem_text
  | inr o => exact o.inLine

theorem length_text_lt (l : MeminfoLine) : (text l).length < 254 := by
  cases l with
  | inl e => exact e.short
  | inr o => exact o.short

theorem assign_text (l : MeminfoLine) (m : MemoryPacket) :
    MemoryPrivate.assign (text l ++ [newline]) m = store l m := by
  cases l with
  | inl e => exact e.assign_text m
  | inr o => exact o.assign_text m

end MeminfoLine

/-- A document with at most one line for each key, among any other lines. -/
structure Meminfo where
  lines : List MeminfoLine
  nodup : ((lines.filterMap Sum.getLeft?).map (·.key)).Nodup

namespace Meminfo

def text (d : Meminfo) : Bytes := unlines (d.lines.map MeminfoLine.text)

def entries (d : Meminfo) : List MemEntry := d.lines.filterMap Sum.getLeft?

def entry? (d : Meminfo) (name : Bytes) : Option MemEntry := d.entries.find? (·.key == name)

/-- The value of a key, 0 when the document has no such line. -/
def valueOf (d : Meminfo) (name : Bytes) : ℕ := ((d.entry? name).map (·.value)).getD 0

/-- What is stored for a key. -/
def stored (d : Meminfo) (name : Bytes) : UInt64 := .ofNat (min (d.valueOf name) (2 ^ 64 - 1))

/-- The packet with every field the loop fills taken from the document; `MemAvailable` is not one
of them. -/
def packet (d : Meminfo) : MemoryPacket where
  memTotal := d.stored (ascii "MemTotal")
  memFree := d.stored (ascii "MemFree")
  memAvailable := 0
  buffers := d.stored (ascii "Buffers")
  cached := d.stored (ascii "Cached")
  shmem := d.stored (ascii "Shmem")
  sReclaimable := d.stored (ascii "SReclaimable")

/-- A field that only the lines of one key write ends up with the value of that line. -/
theorem get_foldl_store (get : MemoryPacket → UInt64) (name : Bytes)
    (hself : ∀ e m, e.key = name → get (MemEntry.store e m) = e.stored)
    (hother : ∀ e m, e.key ≠ name → get (MemEntry.store e m) = get m)
    {es : List MemEntry} (hnd : (es.map (·.key)).Nodup) (m : MemoryPacket) :
    get (es.foldl (fun m e => e.store m) m) =
      ((es.find? (·.key == name)).map MemEntry.stored).getD (get m) := by
  induction es generalizing m with
  | nil => rfl
  | cons e es ih =>
    rw [List.map_cons, List.nodup_cons] at hnd
    rw [List.foldl_cons, ih hnd.2, List.find?_cons]
    by_cases he : e.key = name
    · have hnone : es.find? (·.key == name) = none := by
        rw [List.find?_eq_none]
        intro k hk hkey
        apply hnd.1
        rw [he, List.mem_map]
        exact ⟨k, hk, by simpa using hkey⟩
      simp [he, hnone, hself]
    · have hbeq : (e.key == name) = false := by simpa using he
      simp [hbeq, hother e m he]

theorem memAvailable_foldl_store (es : List MemEntry) (m : MemoryPacket) :
    (es.foldl (fun m e => e.store m) m).memAvailable = m.memAvailable := by
  induction es generalizing m with
  | nil => rfl
  | cons e es ih =>
    rw [List.foldl_cons, ih, MemEntry.store]
    split_ifs <;> rfl

theorem foldl_entries (ls : List MeminfoLine) (m : MemoryPacket) :
    ls.foldl (fun m l => MeminfoLine.store l m) m =
      (ls.filterMap Sum.getLeft?).foldl (fun m e => e.store m) m := by
  induction ls generalizing m with
  | nil => rfl
  | cons l ls ih =>
    cases l with
    | inl e => exact ih _
    | inr o => exact ih _

theorem foldl_store (d : Meminfo) :
    d.lines.foldl (fun m l => MeminfoLine.store l m) .zero = d.packet := by
  have hval : ∀ name, ((d.entry? name).map MemEntry.stored).getD 0 = d.stored name := by
    intro name
    rw [stored, valueOf]
    cases d.entry? name <;> rfl
  have hfield : ∀ (get : MemoryPacket → UInt64) (name : Bytes),
      (∀ e m, e.key = name → get (MemEntry.store e m) = e.stored) →
      (∀ e m, e.key ≠ name → get (MemEntry.store e m) = get m) → get .zero = 0 →
      get (d.lines.foldl (fun m l => MeminfoLine.store l m) .zero) = d.stored name := by
    intro get name hself hother hzero
    rw [foldl_entries, get_foldl_store get name hself hother d.nodup, hzero]
    exact hval name
  refine MemoryPacket.ext (hfield (·.memTotal) (ascii "MemTotal") ?_ ?_ rfl)
    (hfield (·.memFree) (ascii "MemFree") ?_ ?_ rfl) ?available
    (hfield (·.buffers) (ascii "Buffers") ?_ ?_ rfl) (hfield (·.cached) (ascii "Cached") ?_ ?_ rfl)
    (hfield (·.shmem) (ascii "Shmem") ?_ ?_ rfl)
    (hfield (·.sReclaimable) (ascii "SReclaimable") ?_ ?_ rfl)
  case available =>
    rw [foldl_entries]
    exact memAvailable_foldl_store d.entries .zero
  -- the branch of the key itself, and then all the others
  all_goals
    intro e m he
    simp only [MemEntry.store, he, if_false]
    first
      | rfl
      | split_ifs <;> rfl

/-- The loop reads the document line by line and stores each line. -/
theorem returns_unlines (ls : List MeminfoLine) (m : MemoryPacket) :
    Loop.Returns MemoryPrivate.meminfoStep (.ofText (unlines (ls.map MeminfoLine.text)), m)
      (ls.foldl (fun m l => MeminfoLine.store l m) m) := by
  induction ls generalizing m with
  | nil =>
    apply Loop.Returns.exit
    simp [MemoryPrivate.meminfoStep, Stream.ofText, fgets_eof (show 1 < 255 by decide)]
  | cons l ls ih =>
    refine .next ?_ (ih (MeminfoLine.store l m))
    have hshort : (MeminfoLine.text l).length + 1 < 255 := by
      have := MeminfoLine.length_text_lt l
      omega
    have hline := fgets_line (MeminfoLine.newline_notMem_text l) hshort
      (unlines (ls.map MeminfoLine.text)) .eof false
    simp [MemoryPrivate.meminfoStep, Stream.ofText, hline, MeminfoLine.assign_text]

theorem getMemoryInfo_text (d : Meminfo) :
    MemoryPrivate.getMemoryInfo (.ofText d.text) = some d.packet := by
  rw [MemoryPrivate.getMemoryInfo_eq_some_iff, ← foldl_store]
  exact returns_unlines d.lines .zero

end Meminfo

end ComputerMonitor
