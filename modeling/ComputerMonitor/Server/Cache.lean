import ComputerMonitor.Monitor.Disks
import ComputerMonitor.Server.Atomic

/-! The two texts that the monitor keeps, in the replies of whole runs. -/

namespace ComputerMonitor

open Bytes Assoc

namespace Monitor

open Json

/-- A member of a document's part about the processor. -/
def cpuText (key : Bytes) (j : Json) : Option Bytes :=
  (find (ascii "cpu") j.members).bind fun cpu => (find key cpu.members).bind fun
    | .string s => some s
    | _ => none

/-- A text once it is there. -/
def Keeps (old new : Bytes) : Prop := old ≠ [] → new = old

theorem keeps_getCPUModelName {m m' : CPUMonitor} {cpuinfo : Stdio.Stream} {t : Bytes}
    (h : m.getCPUModelName cpuinfo = some (t, m')) :
    t = m'.modelName ∧ Keeps m.modelName m'.modelName ∧ m'.baseClock = m.baseClock := by
  rw [CPUMonitor.getCPUModelName] at h
  split_ifs at h with hempty
  · obtain ⟨p, -, heq⟩ := Option.map_eq_some_iff.mp h
    cases heq
    exact ⟨rfl, fun hne => absurd hempty hne, rfl⟩
  · cases h
    exact ⟨rfl, fun _ => rfl, rfl⟩

theorem keeps_getCpuBaseClock {m m' : CPUMonitor} {cpuinfo : Stdio.Stream} {t : Bytes}
    (h : m.getCpuBaseClock cpuinfo = some (t, m')) :
    t = m'.baseClock ∧ Keeps m.baseClock m'.baseClock ∧ m'.modelName = m.modelName := by
  rw [CPUMonitor.getCpuBaseClock] at h
  split_ifs at h with hempty
  · obtain ⟨p, -, heq⟩ := Option.map_eq_some_iff.mp h
    cases heq
    exact ⟨rfl, fun hne => absurd hempty hne, rfl⟩
  · cases h
    exact ⟨rfl, fun _ => rfl, rfl⟩

/-- What the monitor keeps afterwards is what it has put down. -/
theorem getCPU_cases {m m' : Monitor} {r : Readings} {cpu : Json}
    (h : m.getCPU r = some (cpu, m')) :
    cpu = .object [(ascii "cpu", cpuEntry m'.cpuMonitor.modelName m'.cpuMonitor.baseClock
      (CPUMonitor.getCpuUsage r.cpuUsage))] ∧
      Keeps m.cpuMonitor.modelName m'.cpuMonitor.modelName ∧
      Keeps m.cpuMonitor.baseClock m'.cpuMonitor.baseClock := by
  simp only [getCPU, Option.bind_eq_bind, Option.bind_eq_some_iff, null_set, Option.pure_def,
    Option.some.injEq, Prod.mk.injEq] at h
  obtain ⟨⟨modelName, c⟩, hname, ⟨baseClock, c'⟩, hclock, _, rfl, rfl, rfl⟩ := h
  obtain ⟨rfl, hkeepsName, hsame⟩ := keeps_getCPUModelName hname
  obtain ⟨rfl, hkeepsClock, hsame'⟩ := keeps_getCpuBaseClock hclock
  exact ⟨by rw [hsame'], hsame' ▸ hkeepsName, hsame ▸ hkeepsClock⟩

/-- The document of `RequestBaseInfo` has no part about the processor, or the one of `GetCPU`. -/
theorem getInfoByJson_cases {m m' : Monitor} {r : Readings} {j : Json}
    (h : m.getInfoByJson r = some (j, m')) :
    ∃ cpu, m.getCPU r = some (cpu, m') ∧
      (j = .null ∨ find (ascii "cpu") j.members = find (ascii "cpu") cpu.members) := by
  have hparts := h
  simp only [getInfoByJson, getDisk, Option.bind_eq_bind, Option.bind_eq_some_iff, Option.pure_def,
    Option.some.injEq, Prod.mk.injEq] at hparts
  obtain ⟨⟨cpu, m''⟩, hcpu, memory, hmemory, disk, ⟨disks, hdisks, -⟩, -, rfl⟩ := hparts
  refine ⟨cpu, hcpu, ?_⟩
  by_cases hne : disks = []
  · subst hne
    rw [getInfoByJson_nil hcpu hmemory hdisks] at h
    cases h
    exact .inl rfl
  · rw [getInfoByJson_of_ne_nil hcpu hmemory hdisks hne] at h
    cases h
    exact .inr (complete_insertAll (holds_getCPU hcpu) (holds_getMemory hmemory) disks).cpu

theorem cpuText_cpuEntry (modelName baseClock usage : Bytes) :
    let cpu := object [(ascii "cpu", cpuEntry modelName baseClock usage)]
    cpuText (ascii "modelName") cpu = some modelName ∧
      cpuText (ascii "baseClock") cpu = some baseClock := by
  have hne : ascii "modelName" ≠ ascii "baseClock" := by decide
  simp [cpuText, cpuEntry_eq, find, hne.symm]

end Monitor

namespace Server

open Monitor

/-- The documents for some commands, one after the other, and the monitor as they leave it. -/
def documents : List Command → Desk → Option (List Json × Desk)
  | [], d => some ([], d)
  | c :: commands, d => do
    let (j, m) ← document c d.monitor (d.readings 0)
    let (rest, d) ← documents commands (d.next m)
    return (j :: rest, d)

/-- The text under `key` is what the monitor keeps in `text` from then on. -/
def Shows (text : CPUMonitor → Bytes) (key : Bytes) : Prop :=
  ∀ c m m' r j, document c m r = some (j, m') →
    Keeps (text m.cpuMonitor) (text m'.cpuMonitor) ∧ ∀ t ∈ cpuText key j, t = text m'.cpuMonitor

theorem cpuText_data (key : Bytes) (data : Json) :
    cpuText key (.object [(ascii "data", data)]) = none := by
  have hne : ascii "data" ≠ ascii "cpu" := by decide
  simp [cpuText, find, hne]

/-- The other documents are not about the processor. -/
theorem cpuText_document {c : Command} (hc : c ≠ .requestBaseInfo) {m m' : Monitor} {r : Readings}
    {j : Json} (h : document c m r = some (j, m')) : m' = m ∧ ∀ key, cpuText key j = none := by
  cases c with
  | requestBaseInfo => exact absurd rfl hc
  | disksOverview =>
    obtain ⟨_, hj, heq⟩ := Option.map_eq_some_iff.mp h
    cases heq
    simp only [diskInfoOverview, Option.bind_eq_bind, Option.bind_eq_some_iff] at hj
    obtain ⟨total, -, used, -, hj⟩ := hj
    cases hj
    exact ⟨rfl, fun key => cpuText_data key _⟩
  | disksInfo =>
    obtain ⟨_, hj, heq⟩ := Option.map_eq_some_iff.mp h
    cases heq
    simp only [disksInfo, Option.bind_eq_bind, Option.bind_eq_some_iff, disksInfoJson_eq] at hj
    obtain ⟨disks, -, total, -, hj⟩ := hj
    cases hj
    exact ⟨rfl, fun key => cpuText_data key _⟩
  | diskIO =>
    rw [document] at h
    obtain ⟨_, hj, heq⟩ := Option.map_eq_some_iff.mp h
    cases heq
    cases hj
    exact ⟨rfl, fun key => cpuText_data key _⟩

theorem shows_of_getCPU {text : CPUMonitor → Bytes} {key : Bytes}
    (h : ∀ (m m' : Monitor) (r : Readings) (cpu : Json), m.getCPU r = some (cpu, m') →
      Keeps (text m.cpuMonitor) (text m'.cpuMonitor) ∧
        cpuText key cpu = some (text m'.cpuMonitor)) : Shows text key := by
  intro c m m' r j hj
  by_cases hc : c = .requestBaseInfo
  · subst hc
    obtain ⟨cpu, hcpu, hdocument⟩ := getInfoByJson_cases hj
    obtain ⟨hkeeps, hshown⟩ := h m m' r cpu hcpu
    refine ⟨hkeeps, fun t ht => ?_⟩
    rcases hdocument with rfl | hfind
    · simp [cpuText, Json.members, find] at ht
    · have hsame : cpuText key j = cpuText key cpu := by rw [cpuText, hfind, cpuText]
      rw [hsame, hshown, Option.mem_some_iff] at ht
      exact ht.symm
  · obtain ⟨rfl, hnone⟩ := cpuText_document hc hj
    exact ⟨fun _ => rfl, by simp [hnone key]⟩

theorem shows_modelName : Shows (·.modelName) (ascii "modelName") := by
  apply shows_of_getCPU
  intro m m' r cpu h
  obtain ⟨rfl, hname, -⟩ := getCPU_cases h
  exact ⟨hname, (cpuText_cpuEntry _ _ _).1⟩

theorem shows_baseClock : Shows (·.baseClock) (ascii "baseClock") := by
  apply shows_of_getCPU
  intro m m' r cpu h
  obtain ⟨rfl, -, hclock⟩ := getCPU_cases h
  exact ⟨hclock, (cpuText_cpuEntry _ _ _).2⟩

/-- Behind a text that is not empty come no others. -/
def Steady (texts : List Bytes) : Prop := texts.Pairwise fun s t => s ≠ [] → t = s

/-- A run of documents shows what the monitor has, or begins to show it in one of them. -/
theorem steady_documents {text : CPUMonitor → Bytes} {key : Bytes} (hshows : Shows text key)
    {commands : List Command} {d d' : Desk} {js : List Json}
    (h : documents commands d = some (js, d')) :
    Steady (js.filterMap (cpuText key)) ∧ (text d.monitor.cpuMonitor ≠ [] →
      ∀ t ∈ js.filterMap (cpuText key), t = text d.monitor.cpuMonitor) := by
  induction commands generalizing d js with
  | nil =>
    cases h
    exact ⟨List.Pairwise.nil, by simp⟩
  | cons c commands ih =>
    simp only [documents, Option.bind_eq_bind, Option.bind_eq_some_iff, Option.pure_def,
      Option.some.injEq, Prod.mk.injEq] at h
    obtain ⟨⟨j, m⟩, hj, ⟨rest, e⟩, hrest, rfl, rfl⟩ := h
    obtain ⟨hkeeps, hshown⟩ := hshows c _ m _ j hj
    obtain ⟨hsteady, hsame⟩ := ih hrest
    have htail : text d.monitor.cpuMonitor ≠ [] →
        ∀ t ∈ rest.filterMap (cpuText key), t = text d.monitor.cpuMonitor := by
      intro hne t ht
      rw [← hkeeps hne]
      exact hsame (by rw [Desk.next, hkeeps hne]; exact hne) t ht
    cases hc : cpuText key j with
    | none => simpa only [List.filterMap_cons_none hc] using ⟨hsteady, htail⟩
    | some t =>
      have ht : t = text m.cpuMonitor := hshown t hc
      rw [List.filterMap_cons_some hc]
      constructor
      · refine List.Pairwise.cons (fun s hs hne => ?_) hsteady
        rw [ht] at hne ⊢
        exact hsame hne s hs
      · intro hne s hs
        rcases List.mem_cons.mp hs with rfl | hs
        · exact ht.trans (hkeeps hne)
        · exact htail hne s hs

variable {κ : Type*} [DecidableEq κ] {fmt : Json.FloatFormat} {spec : κ → ClientSpec} {n : Net κ}

/-- The answers to known commands. -/
def known (spec : κ → ClientSpec) (served : List (κ × Bytes)) : List (κ × Bytes) :=
  served.filter fun p => (dispatch (spec p.1).text).isSome

omit [DecidableEq κ] in
/-- The answers are the documents of the known commands as texts. -/
theorem exists_documents {served : List (κ × Bytes)} {d d' : Desk}
    (h : answers fmt (served.map fun p => (spec p.1).text) d = some (served.map (·.2), d')) :
    ∃ js, documents (served.filterMap fun p => dispatch (spec p.1).text) d = some (js, d') ∧
      js.map (Json.dump fmt) = (known spec served).map fun p => some p.2 := by
  induction served generalizing d with
  | nil =>
    cases h
    exact ⟨[], rfl, rfl⟩
  | cons p served ih =>
    simp only [List.map_cons, answers, Option.bind_eq_bind, Option.bind_eq_some_iff,
      Option.pure_def, Option.some.injEq, Prod.mk.injEq, List.cons.injEq] at h
    obtain ⟨⟨data, e⟩, hdata, ⟨rest, e'⟩, hrest, ⟨rfl, rfl⟩, rfl⟩ := h
    obtain ⟨js, hjs, hdumps⟩ := ih hrest
    rw [answer] at hdata
    cases hc : dispatch (spec p.1).text with
    | none =>
      simp only [hc, Option.some.injEq, Prod.mk.injEq] at hdata
      obtain ⟨-, rfl⟩ := hdata
      exact ⟨js, by simpa [hc] using hjs, by simpa [known, hc] using hdumps⟩
    | some c =>
      simp only [hc, reply, Option.bind_eq_bind, Option.bind_eq_some_iff, Option.pure_def,
        Option.some.injEq, Prod.mk.injEq] at hdata
      obtain ⟨⟨j, m⟩, hj, text, htext, rfl, rfl⟩ := hdata
      refine ⟨j :: js, by simp [hc, documents, hj, hjs], ?_⟩
      simpa [known, hc, htext] using hdumps

/-- The document that is logged at the start shows what the monitor has from then on. -/
theorem exists_getCPU_startup {fmt : Json.FloatFormat} {r : Readings} {m : Monitor}
    (h : startup fmt r = some m) :
    ∃ cpu, Monitor.create.getCPU r = some (cpu, m) ∧
      cpuText (ascii "modelName") cpu = some m.cpuMonitor.modelName ∧
      cpuText (ascii "baseClock") cpu = some m.cpuMonitor.baseClock := by
  simp only [startup, Option.bind_eq_bind, Option.bind_eq_some_iff, Option.pure_def,
    Option.some.injEq] at h
  obtain ⟨_, -, _, -, _, -, _, -, ⟨cpu, m'⟩, hcpu, _, -, rfl⟩ := h
  obtain ⟨rfl, -, -⟩ := getCPU_cases hcpu
  exact ⟨_, hcpu, (cpuText_cpuEntry _ _ _).1, (cpuText_cpuEntry _ _ _).2⟩

theorem Steady.cons_document {text : CPUMonitor → Bytes} {key : Bytes} (hshows : Shows text key)
    {cpu : Json} {m : Monitor} (hcpu : cpuText key cpu = some (text m.cpuMonitor))
    {readings : ℕ → Readings} {commands : List Command} {d : Desk} {js : List Json}
    (h : documents commands ⟨m, readings⟩ = some (js, d)) :
    Steady ((cpu :: js).filterMap (cpuText key)) := by
  obtain ⟨hsteady, hsame⟩ := steady_documents hshows h
  rw [List.filterMap_cons_some hcpu]
  exact List.Pairwise.cons (fun t ht hne => hsame hne t ht) hsteady

/-- In every run of the program the document logged at the start and the replies to
`RequestBaseInfo` agree on the model name and on the base clock, from the first that shows one on
and whatever `/proc/cpuinfo` holds later. -/
theorem steady_netRun {r : Readings} {m : Monitor} {readings : ℕ → Readings}
    {events : List (NetEvent κ)} (hstart : startup fmt r = some m)
    (h : netRun fmt spec ⟨m, readings⟩ events = some n) :
    ∃ (cpu : Json) (served : List (κ × Bytes)) (js : List Json),
      Monitor.create.getCPU r = some (cpu, m) ∧
      Logged spec served n.server.call n.server.log ∧
      documents (served.filterMap fun p => dispatch (spec p.1).text) ⟨m, readings⟩ =
        some (js, n.server.monitor) ∧
      js.map (Json.dump fmt) = ((known spec served).map fun p => some p.2) ∧
      Steady ((cpu :: js).filterMap (cpuText (ascii "modelName"))) ∧
      Steady ((cpu :: js).filterMap (cpuText (ascii "baseClock"))) := by
  obtain ⟨cpu, hcpu, hname, hclock⟩ := exists_getCPU_startup hstart
  obtain ⟨served, hlogged, hanswers, -⟩ := answers_netRun h
  obtain ⟨js, hjs, hdumps⟩ := exists_documents hanswers
  exact ⟨cpu, served, js, hcpu, hlogged, hjs, hdumps, .cons_document shows_modelName hname hjs,
    .cons_document shows_baseClock hclock hjs⟩

/-- A client that asks for the base information again and again. -/
def baseInfoEvents : List (NetEvent ℕ) :=
  [.send 0, .arrive 0, .serverRound, .serverRound, .deliver 0, .recv 0, .send 0, .arrive 0,
    .serverRound, .serverRound]

def baseInfoSpec : ℕ → ClientSpec := fun _ => ⟨.noBlockSocket, ascii "RequestBaseInfo"⟩

/-- Nothing of the processor at the start, then a name, and another one in its place. -/
def renamedCpuinfo : ℕ → Bytes
  | 0 => []
  | 1 => ascii "model name\t: Xeon\ncpu MHz\t\t: 2400.000\n"
  | _ => ascii "model name\t: EPYC\ncpu MHz\t\t: 3100.000\n"

def renamedReadings (k : ℕ) : Readings :=
  { Monitor.sampleReadings (DiskPrivate.sampleListing [DiskPrivate.mydisk]) with
    cpuinfo := fun _ => .ofText (renamedCpuinfo k) }

/-- The second answer still shows the name of the first. -/
theorem steady_netRun_renamed :
    ∃ (m : Monitor) (n : Net ℕ) (cpu : Json) (served : List (ℕ × Bytes)) (js : List Json),
      startup sampleFormat (renamedReadings 0) = some m ∧
      netRun sampleFormat baseInfoSpec ⟨m, fun k => renamedReadings (k + 1)⟩ baseInfoEvents =
        some n ∧
      Logged baseInfoSpec served n.server.call n.server.log ∧
      js.map (Json.dump sampleFormat) = ((known baseInfoSpec served).map fun p => some p.2) ∧
      (cpu :: js).filterMap (cpuText (ascii "modelName")) = [[], ascii "Xeon", ascii "Xeon"] ∧
      Steady ((cpu :: js).filterMap (cpuText (ascii "modelName"))) := by
  have hrun : ((startup sampleFormat (renamedReadings 0)).bind fun m =>
      (netRun sampleFormat baseInfoSpec ⟨m, fun k => renamedReadings (k + 1)⟩ baseInfoEvents).map
        fun n => n.server.log.length) = some 4 := by
    decide +kernel
  have htexts : (startup sampleFormat (renamedReadings 0)).bind (fun m =>
      (documents [.requestBaseInfo, .requestBaseInfo] ⟨m, fun k => renamedReadings (k + 1)⟩).map
        fun p => m.cpuMonitor.modelName :: p.1.filterMap (cpuText (ascii "modelName"))) =
        some [[], ascii "Xeon", ascii "Xeon"] := by
    decide +kernel
  obtain ⟨m, hm, hn⟩ := Option.bind_eq_some_iff.mp hrun
  obtain ⟨n, hn, hlength⟩ := Option.map_eq_some_iff.mp hn
  obtain ⟨cpu, served, js, hcpu, hlogged, hjs, hdumps, hsteady, -⟩ := steady_netRun hm hn
  refine ⟨m, n, cpu, served, js, hm, hn, hlogged, hdumps, ?_, hsteady⟩
  have hserved : served.length = 2 := by
    have htwice := congrArg List.length hlogged.eq
    simp only [List.length_append, hlength, List.length_flatMap, List.length_cons, List.length_nil,
      List.map_const', List.sum_replicate, smul_eq_mul] at htwice
    cases hcall : n.server.call <;> simp [hcall] at htwice <;> omega
  have hcommands : (served.filterMap fun p => dispatch (baseInfoSpec p.1).text) =
      [.requestBaseInfo, .requestBaseInfo] := by
    obtain ⟨p, q, rfl⟩ := List.length_eq_two.mp hserved
    rfl
  rw [hcommands] at hjs
  rw [hm, Option.bind_some, hjs, Option.map_some, Option.some.injEq] at htexts
  rw [← htexts, List.filterMap_cons_some]
  obtain ⟨rfl, -, -⟩ := getCPU_cases hcpu
  exact (cpuText_cpuEntry _ _ _).1

end Server

end ComputerMonitor
