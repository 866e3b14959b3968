import ComputerMonitor.Monitor.Disks
import ComputerMonitor.Support.Run

/-! The documents that take two runs of `df`, with the disks changing at any time. -/

namespace ComputerMonitor

open Bytes Stdio DiskMonitor Assoc

namespace Snapshot

inductive DiskRequest
  | disksOverview
  | disksInfo

def DiskRequest.document : DiskRequest → Readings → Option Json
  | .disksOverview => Monitor.diskInfoOverview
  | .disksInfo => Monitor.disksInfo

/-- A document, with what the two runs of `df` have printed for it. -/
structure Reply where
  request : DiskRequest
  first : Stream
  second : Stream
  document : Json

/-- What `df` prints now, and what it has printed first for a request that needs it again. -/
structure State where
  df : Stream
  pending : Option (DiskRequest × Stream)
  replies : List Reply

/-- `change` stands for everything that alters what `df` prints. -/
inductive Event
  | change (df : Stream)
  | firstRun (request : DiskRequest)
  | secondRun

section Steps

-- The two documents do not look at the other readings.
variable (r : Readings)

def step (s : State) : Event → Option State
  | .change df => some { s with df }
  | .firstRun request =>
    match s.pending with
    | none => some { s with pending := some (request, s.df) }
    | some _ => none
  | .secondRun =>
    match s.pending with
    | none => none
    | some (request, first) =>
      (request.document { r with df := ![first, s.df] }).map fun document =>
        { s with pending := none, replies := s.replies ++ [⟨request, first, s.df, document⟩] }

def init (df : Stream) : State := ⟨df, none, []⟩

def run (df : Stream) (events : List Event) : Option State := Run.run (step r) (init df) events

variable {r}

theorem step_cases {s t : State} {e : Event} (h : step r s e = some t) :
    t.replies = s.replies ∨
      e = .secondRun ∧ ∃ request first document, s.pending = some (request, first) ∧
        request.document { r with df := ![first, s.df] } = some document ∧
        t.replies = s.replies ++ [⟨request, first, s.df, document⟩] := by
  cases e with
  | change df =>
    cases h
    exact .inl rfl
  | firstRun request =>
    simp only [step] at h
    split at h
    · cases h
      exact .inl rfl
    · cases h
  | secondRun =>
    simp only [step] at h
    split at h
    · cases h
    · rename_i request first hp
      obtain ⟨document, hdocument, rfl⟩ := Option.map_eq_some_iff.mp h
      exact .inr ⟨rfl, request, first, document, hp, hdocument, rfl⟩

end Steps

/-! ### The figures in a document -/

/-- The number with a key in the object under `data`. -/
def count (key : Bytes) (document : Json) : Option Double := do
  let data ← find (ascii "data") document.members
  let x ← find key data.members
  Monitor.numberFloat? x

/-- The disks' entries in the array under `data`. -/
def list (document : Json) : List Json :=
  match find (ascii "data") document.members with
  | some (.array (disks :: _)) =>
    match find (ascii "list") disks.members with
    | some (.array entries) => entries
    | _ => []
  | _ => []

/-- The total beside them. -/
def reportedTotal (document : Json) : Option Double :=
  match find (ascii "data") document.members with
  | some (.array [_, .array [_, .numberFloat x]]) => some x
  | _ => none

theorem list_disksInfoJson {disks : List DFStructInfo} {x : Double} {document : Json}
    (h : Monitor.disksInfoJson disks x = some document) :
    list document = disks.map Monitor.entry := by
  rw [Monitor.disksInfoJson_eq, Option.some.injEq] at h
  subst h
  by_cases hnil : disks = []
  · rw [if_pos hnil, hnil]
    rfl
  · rw [if_neg hnil]
    rfl

theorem reportedTotal_disksInfoJson {disks : List DFStructInfo} {x : Double} {document : Json}
    (h : Monitor.disksInfoJson disks x = some document) : reportedTotal document = some x := by
  rw [Monitor.disksInfoJson_eq, Option.some.injEq] at h
  subst h
  rfl

theorem count_overviewJson {lastCount useCount : Double} {document : Json}
    (h : Monitor.overviewJson lastCount useCount = some document) :
    count (ascii "lastCount") document = some lastCount ∧
      count (ascii "useCount") document = some useCount := by
  rw [Monitor.overviewJson_eq, Option.some.injEq] at h
  subst h
  exact ⟨rfl, rfl⟩

/-- The disks are those of a listing that `df` has printed for the reply. -/
def Reply.Prints (reply : Reply) (disks : List DFStructInfo) : Prop :=
  ∃ df ∈ [reply.first, reply.second], DiskPrivate.diskInfoByDf df = some disks

/-- The list and the total, or the two counts, are those of one listing. -/
def Reply.Consistent (reply : Reply) : Prop :=
  match reply.request with
  | .disksOverview =>
    (∃ disks, reply.Prints disks ∧
      count (ascii "lastCount") reply.document = some (total disks) ∧
      count (ascii "useCount") reply.document = some (used disks)) ∧
    ((∀ disks, reply.Prints disks → ∀ d ∈ disks, Double.Le d.used d.blocks) →
      ∃ lastCount useCount, count (ascii "lastCount") reply.document = some lastCount ∧
        count (ascii "useCount") reply.document = some useCount ∧ Double.Le useCount lastCount)
  | .disksInfo =>
    ∃ disks, reply.Prints disks ∧ list reply.document = disks.map Monitor.entry ∧
      reportedTotal reply.document = some (total disks)

/-! ### Sums over listings -/

theorem le_foldl {disks : List DFStructInfo} (h : ∀ d ∈ disks, Double.Le d.used d.blocks)
    {u t : Double} (hut : Double.Le u t) :
    Double.Le (disks.foldl (fun used it => used + it.used / TB) u)
      (disks.foldl (fun total it => total + it.blocks / TB) t) := by
  induction disks generalizing u t with
  | nil => exact hut
  | cons d disks ih =>
    have hd := (h d (by simp)).div (c := 1024 * 1024 * 1024) (by norm_num)
    exact ih (fun e he => h e (by simp [he])) (hut.add hd)

/-- Where no disk has more in use than it holds, neither have all together. -/
theorem used_le_total {disks : List DFStructInfo} (h : ∀ d ∈ disks, Double.Le d.used d.blocks) :
    Double.Le (used disks) (total disks) :=
  le_foldl h ⟨0, 0, rfl, rfl, le_rfl⟩

/-- The total looks at nothing but the capacities. -/
theorem total_eq_of_blocks {disks disks' : List DFStructInfo}
    (h : disks.map (·.blocks) = disks'.map (·.blocks)) : total disks = total disks' := by
  have htotal : ∀ ds : List DFStructInfo,
      total ds = (ds.map (·.blocks)).foldl (fun total blocks => total + blocks / TB) 0 := by
    intro ds
    rw [List.foldl_map, total]
  rw [htotal, htotal, h]

/-! ### Runs -/

/-- No disk has come, gone or changed its size. -/
def SameSizes (first second : Stream) : Prop :=
  ∀ disks disks', DiskPrivate.diskInfoByDf first = some disks →
    DiskPrivate.diskInfoByDf second = some disks' → disks.map (·.blocks) = disks'.map (·.blocks)

/-- So it is between the two runs of `df` for a request. -/
def Unresized (s : State) : Event → Prop
  | .change _ => True
  | .firstRun _ => True
  | .secondRun => ∀ p ∈ s.pending, SameSizes p.2 s.df

theorem document_disksInfo {r : Readings} {first second : Stream} {disks disks' : List DFStructInfo}
    (h : DiskPrivate.diskInfoByDf first = some disks)
    (h' : DiskPrivate.diskInfoByDf second = some disks') :
    DiskRequest.disksInfo.document { r with df := ![first, second] } =
      Monitor.disksInfoJson disks (total disks') := Monitor.disksInfo_eq h h'

theorem document_disksOverview {r : Readings} {first second : Stream}
    {disks disks' : List DFStructInfo} (h : DiskPrivate.diskInfoByDf first = some disks)
    (h' : DiskPrivate.diskInfoByDf second = some disks') :
    DiskRequest.disksOverview.document { r with df := ![first, second] } =
      Monitor.overviewJson (total disks) (used disks') := by
  simp [DiskRequest.document, Monitor.diskInfoOverview, diskTotalByDf, diskUsedByDf, h, h']

/-- The total is also that of the other listing. -/
theorem consistent_document {r : Readings} {request : DiskRequest} {first second : Stream}
    {document : Json} (h : request.document { r with df := ![first, second] } = some document)
    (hsizes : SameSizes first second) :
    (Reply.mk request first second document).Consistent := by
  cases request with
  | disksOverview =>
    simp only [DiskRequest.document, Monitor.diskInfoOverview, diskTotalByDf, diskUsedByDf,
      Matrix.cons_val_zero, Matrix.cons_val_one, Option.bind_eq_bind, Option.bind_eq_some_iff,
      Option.map_eq_some_iff] at h
    obtain ⟨_, ⟨disks, hdisks, rfl⟩, _, ⟨disks', hdisks', rfl⟩, hdocument⟩ := h
    rw [total_eq_of_blocks (hsizes disks disks' hdisks hdisks')] at hdocument
    obtain ⟨hlast, huse⟩ := count_overviewJson hdocument
    have hprints : Reply.Prints ⟨.disksOverview, first, second, document⟩ disks' :=
      ⟨second, by simp, hdisks'⟩
    exact ⟨⟨disks', hprints, hlast, huse⟩, fun hle =>
      ⟨_, _, hlast, huse, used_le_total (hle disks' hprints)⟩⟩
  | disksInfo =>
    simp only [DiskRequest.document, Monitor.disksInfo, getDisksByDf, diskTotalByDf,
      Matrix.cons_val_zero, Matrix.cons_val_one, Option.bind_eq_bind, Option.bind_eq_some_iff,
      Option.map_eq_some_iff] at h
    obtain ⟨disks, hdisks, _, ⟨disks', hdisks', rfl⟩, hdocument⟩ := h
    rw [← total_eq_of_blocks (hsizes disks disks' hdisks hdisks')] at hdocument
    exact ⟨disks, ⟨first, by simp, hdisks⟩, list_disksInfoJson hdocument,
      reportedTotal_disksInfoJson hdocument⟩

theorem consistent_step {r : Readings} {s t : State} {e : Event}
    (hs : ∀ reply ∈ s.replies, reply.Consistent) (he : Unresized s e) (h : step r s e = some t) :
    ∀ reply ∈ t.replies, reply.Consistent := by
  rcases step_cases h with hsame | ⟨rfl, request, first, document, hp, hdocument, hreplies⟩
  · rwa [hsame]
  · have hsizes : SameSizes first s.df := he (request, first) hp
    rw [hreplies, List.forall_mem_append, List.forall_mem_singleton]
    exact ⟨hs, consistent_document hdocument hsizes⟩

open DiskPrivate

/-- The disk of `mydisk` after more has been written to it. -/
def filled : DfRow := { mydisk with used := .ofNat 90, available := .ofNat 10 }

def sampleDf (rows : List DfRow) : Stream := .ofText (sampleListing rows).text

theorem diskInfoByDf_sampleDf {rows : List DfRow} (h : ∀ row ∈ rows, Solid row.mounted) :
    diskInfoByDf (sampleDf rows) = some ((sampleListing rows).devRows.map DfRow.disk) :=
  DfListing.diskInfoByDf_text _ h

def sampleReadings : Readings := Monitor.sampleReadings (sampleListing [])

end Snapshot

end ComputerMonitor
