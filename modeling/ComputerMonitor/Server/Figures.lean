import ComputerMonitor.Server.Contents
import ComputerMonitor.Support.ToChars

/-! The numbers in the replies of whole runs, in the layout that the library gives their digits. -/

namespace ComputerMonitor

open Bytes Scan

/-- The number that a JSON number spells. -/
def JsonTree.value? : JsonTree → Option ℚ
  | .number s =>
    match readDouble s with
    | some (.finite q, []) => some q
    | _ => none
  | _ => none

theorem value?_toChars (grisu2 : ℚ → Digits) (q : ℚ) :
    JsonTree.value? (.number (toChars grisu2 q)) = some (charsValue grisu2 q) := by
  have hread := readDouble_toChars grisu2 Blank.nil q (by simp [Ends] : Ends [])
  rw [List.nil_append, List.append_nil] at hread
  simp only [JsonTree.value?, hread]

namespace Server

open DiskPrivate

def DiskTexts.values (d : DiskTexts) : Option (List ℚ) :=
  [.number d.total, .number d.unused, .number d.used].mapM JsonTree.value?

/-- The floating-point numbers in a reply. -/
def figures (data : Bytes) : Command → Option (List ℚ)
  | .requestBaseInfo => do
    let v ← infoView data
    let values ← v.disks.mapM DiskTexts.values
    return values.flatten
  | .disksOverview => do
    let (x, y) ← pairView (ascii "lastCount") (ascii "useCount") data
    [x, y].mapM JsonTree.value?
  | .disksInfo => do
    let (_, total) ← disksView data
    [JsonTree.number total].mapM JsonTree.value?
  | Command.diskIO => do
    let (x, y) ← pairView (ascii "readIo") (ascii "writeIo") data
    [x, y].mapM JsonTree.value?

/-- What they are the digits of: for `RequestBaseInfo` each disk's counts in GB, then sums in TB, or
the rates where they are finite. -/
def measured (r : Readings) (l : DfListing) : Command → Option (List ℚ)
  | .requestBaseInfo =>
    if l.devRows = [] then none
    else some (l.devRows.flatMap fun row =>
      [row.blocks.value / 2 ^ 20, row.available.value / 2 ^ 20, row.used.value / 2 ^ 20])
  | .disksOverview => some [inTB (·.blocks) l, inTB (·.used) l]
  | .disksInfo => some [inTB (·.blocks) l]
  | Command.diskIO =>
    match r.diskIO with
    | (.finite x, .finite y) => some [x, y]
    | _ => none

variable {grisu2 : ℚ → Digits}

theorem mapM_value? (qs : List ℚ) :
    (qs.map fun q => JsonTree.number (toChars grisu2 q)).mapM JsonTree.value? =
      some (qs.map (charsValue grisu2)) := by
  induction qs with
  | nil => rfl
  | cons q qs ih => simp [value?_toChars, ih]

theorem mapM_values (rows : List DfRow) :
    (rows.map (textsOf (toCharsFormat grisu2))).mapM DiskTexts.values =
      some (rows.map fun row => [row.blocks.value / 2 ^ 20, row.available.value / 2 ^ 20,
        row.used.value / 2 ^ 20].map (charsValue grisu2)) := by
  induction rows with
  | nil => rfl
  | cons row rows ih =>
    have hrow : (textsOf (toCharsFormat grisu2) row).values =
        some ([row.blocks.value / 2 ^ 20, row.available.value / 2 ^ 20,
          row.used.value / 2 ^ 20].map (charsValue grisu2)) :=
      mapM_value? [row.blocks.value / 2 ^ 20, row.available.value / 2 ^ 20, row.used.value / 2 ^ 20]
    simp only [List.map_cons, List.mapM_cons, hrow, ih, Option.pure_def, Option.bind_eq_bind,
      Option.bind_some]

theorem infoView_null : infoView (ascii "null") = none := by
  decide

/-- Reading the numbers of a reply gives the digits of what its request has found. -/
theorem figures_of_contents {r : Readings} {l : DfListing} {usage : ℚ} {mem : Meminfo}
    {data : Bytes} {c : Command} (h : Contents (toCharsFormat grisu2) r l usage mem data c) :
    figures data c = (measured r l c).map (List.map (charsValue grisu2)) := by
  cases c with
  | requestBaseInfo =>
    by_cases hnil : l.devRows = []
    · rw [Contents, if_pos hnil] at h
      rw [measured, if_pos hnil, h, figures, infoView_null]
      rfl
    · rw [Contents, if_neg hnil] at h
      obtain ⟨v, hv, hshows⟩ := h
      rw [measured, if_neg hnil, figures, hv, Option.bind_eq_bind, Option.bind_some,
        hshows.disks, mapM_values]
      simp [List.flatMap, List.map_flatten, Function.comp_def]
  | disksOverview =>
    rw [Contents] at h
    rw [figures, h]
    exact mapM_value? [inTB (·.blocks) l, inTB (·.used) l]
  | disksInfo =>
    obtain ⟨views, hviews, -⟩ := h
    rw [figures, hviews]
    exact mapM_value? [inTB (·.blocks) l]
  | diskIO =>
    rw [Contents] at h
    rw [figures, h, measured]
    obtain ⟨x, y⟩ := r.diskIO
    cases x with
    | finite x =>
      cases y with
      | finite y => exact mapM_value? [x, y]
      | inf s => simp [Json.plainFloat, JsonTree.value?]
      | nan => simp [Json.plainFloat, JsonTree.value?]
    | inf s => simp [Json.plainFloat, JsonTree.value?]
    | nan => simp [Json.plainFloat, JsonTree.value?]

/-- In every run, the numbers in each reply are read back as exactly what the digits stand for that
`grisu2` gives for the counts and rates of that request, whichever layout they are printed in. -/
theorem figures_netRun {κ : Type*} [DecidableEq κ] {spec : κ → ClientSpec} {n : Net κ} {desk : Desk}
    {events : List (NetEvent κ)} {listing : ℕ → DfListing} {cpuinfo : ℕ → Bytes} {usage : ℕ → ℚ}
    {mem : ℕ → Meminfo} (hfinds : ∀ k, Finds (desk.readings k) (listing k) (cpuinfo k))
    (hmeasures : ∀ k, Measures (desk.readings k) (usage k) (mem k))
    (h : netRun (toCharsFormat grisu2) spec desk events = some n) :
    ∃ served : List (κ × Bytes), Logged spec served n.server.call n.server.log ∧
      (∀ k p c, (known spec served)[k]? = some p → (spec p.1).text = Command.text c →
        figures p.2 c =
          (measured (desk.readings k) (listing k) c).map (List.map (charsValue grisu2))) ∧
      ∀ k data, (k, ClientEvent.took data) ∈ netTrace (toCharsFormat grisu2) spec desk events →
        (k, data) ∈ served := by
  obtain ⟨served, hlogged, hanswers, htook⟩ := answers_netRun h
  refine ⟨served, hlogged, fun k p c hp htext => ?_, htook⟩
  exact figures_of_contents (contents_of_answers (numeric_toCharsFormat grisu2) hfinds hmeasures
    hanswers hp htext)

/-- The digits of a few tenths. -/
def tenths (q : ℚ) : Digits where
  buf := decimal ((q * 10).num.natAbs % 1000)
  decimalExponent := -1
  ne := decimal_ne_nil _
  short := by
    have hlt : (q * 10).num.natAbs % 1000 < 10 ^ 3 := Nat.mod_lt _ (by decide)
    exact (length_decimal_le (by decide) hlt).trans (by decide)
  digits := decimal_digits _
  lower := by
    have := List.length_pos_iff.mpr (decimal_ne_nil ((q * 10).num.natAbs % 1000))
    omega
  upper := by
    have hlt : (q * 10).num.natAbs % 1000 < 10 ^ 3 := Nat.mod_lt _ (by decide)
    have := length_decimal_le (by decide : 0 < 3) hlt
    omega

/-- 2.5 TB, of which 1.5 TB are in use. -/
def largeDisk : DfRow :=
  { mydisk with
    blocks := .ofNat (5 * 2 ^ 29)
    used := .ofNat (3 * 2 ^ 29)
    available := .ofNat (2 ^ 30) }

def largeDesk : Desk :=
  ⟨Monitor.create, fun _ =>
    { Monitor.sampleReadings (sampleListing [largeDisk]) with
      cpuinfo := fun _ => .ofText [], meminfo := fun _ => .ofText plainDoc.text }⟩

def largeSpec : ℕ → ClientSpec
  | 0 => requestDiskOverviewFromRaid
  | _ => requestDisksInfoFromRaid

def largeEvents : List (NetEvent ℕ) :=
  [0, 1].flatMap fun k => [.send k, .arrive 0, .serverRound, .serverRound, .deliver 0, .recv k]

theorem figures_netRun_large :
    ∃ (n : Net ℕ) (served : List (ℕ × Bytes)),
      netRun (toCharsFormat tenths) largeSpec largeDesk largeEvents = some n ∧
      Logged largeSpec served n.server.call n.server.log ∧
      ∀ k p c, (known largeSpec served)[k]? = some p → (largeSpec p.1).text = Command.text c →
        figures p.2 c = (measured (largeDesk.readings k) (sampleListing [largeDisk]) c).map
          (List.map (charsValue tenths)) := by
  have hsome : (netRun (toCharsFormat tenths) largeSpec largeDesk largeEvents).isSome = true := by
    decide +kernel
  obtain ⟨n, hn⟩ := Option.isSome_iff_exists.mp hsome
  have hfinds : ∀ k, Finds (largeDesk.readings k) (sampleListing [largeDisk]) [] :=
    fun _ => ⟨rfl, rfl, by decide⟩
  have hmeasures : ∀ k, Measures (largeDesk.readings k) (1 / 4) plainDoc :=
    fun _ => ⟨rfl, rfl, by decide⟩
  obtain ⟨served, hlogged, hfigures, -⟩ := figures_netRun hfinds hmeasures hn
  exact ⟨n, served, hn, hlogged, hfigures⟩

end Server

end ComputerMonitor
