import ComputerMonitor.DiskMonitor.Report

/-! What `DiskIO` publishes depends on the second report of `iostat` alone. -/

namespace ComputerMonitor

open Bytes Scan Stdio

namespace DiskPrivate

/-- The first token of a line, which `%s` takes. -/
def token (line : Bytes) : Bytes := (skipSpace (cstr line)).takeWhile fun b => !isSpace b

/-- A name that fits `devName` and at least three numbers are scanned from the line. -/
def HasRates (line : Bytes) : Prop :=
  ∃ w x y z more, w.length < 20 ∧
    sscanf line ioFormat = .word w :: .double x :: .double y :: .double z :: more

end DiskPrivate

open DiskPrivate

/-- Any output of `iostat`, in the lines that `fgets` takes from it. -/
structure IoOutput where
  text : Bytes
  head : List Bytes
  between : List Bytes
  title : Bytes
  behind : List Bytes
  pieces_eq : pieces 1023 text = head ++ (between ++ title :: behind)
  head_length : head.length = 3
  between_noNul : ∀ line ∈ between, 0 ∉ line
  between_head : ∀ line ∈ between.head?, ¬Blank line
  between_fits : ∀ line ∈ between, (token line).length < 20
  between_device : ∀ line ∈ between, ¬ascii "Device" <+: token line
  title_fits : (token title).length < 20
  title_device : ascii "Device" <+: token title
  behind_rates : ∀ line ∈ behind, Blank line ∨ HasRates line

namespace DiskPrivate

theorem sscanf_token (line : Bytes) :
    token line = [] ∧ sscanf line ioFormat = [] ∨
      ∃ more, sscanf line ioFormat = .word (token line) :: more := by
  by_cases h : token line = []
  · left
    have hread : Conv.word.read (cstr line) = none := by
      rw [token] at h
      simp [Conv.read, readWord, h]
    exact ⟨h, by rw [sscanf, ioFormat, scan_fail hread]⟩
  · right
    have hread : Conv.word.read (cstr line) = some ([.word (token line)],
        (skipSpace (cstr line)).dropWhile fun b => !isSpace b) := by
      rw [token] at h
      simp [Conv.read, readWord, token, h]
    rw [sscanf, ioFormat, scan_cons hread]
    exact ⟨_, rfl⟩

theorem ioAssign_nil (devName : Option (CharArray 20)) (data : Fin 8 → Double) :
    ioAssign [] devName data = some (devName, data) := rfl

theorem token_ne_nil {line : Bytes} (hnul : 0 ∉ line) (h : ¬Blank line) : token line ≠ [] := by
  induction line with
  | nil => exact absurd .nil h
  | cons b line ih =>
    rw [token, cstr_of_notMem hnul, skipSpace]
    cases hb : isSpace b with
    | false => simp [hb]
    | true =>
      rw [List.mem_cons, not_or] at hnul
      have hne := ih hnul.2 (by simpa [hb] using h)
      rw [token, cstr_of_notMem hnul.2, skipSpace] at hne
      simpa [hb] using hne

/-- What is stored for a word and numbers; the numbers that are missing keep what was there. -/
theorem exists_ioAssign_word {w : Bytes} (hfits : w.length < 20) (more : List Item) :
    ∃ name, (isDevice name = true ↔ ascii "Device" <+: w) ∧
      ∀ devName data, ioAssign (.word w :: more) devName data =
        some (some name, fun i : Fin 8 => (more.filterMap Item.double?).getD i (data i)) := by
  obtain ⟨name, hname⟩ := Option.isSome_iff_exists.mp (CharArray.store_isSome.mpr hfits)
  refine ⟨name, ?_, fun devName data => by rw [ioAssign, hname]; rfl⟩
  rw [isDevice, CharArray.str_of_store hname, strncmpEq_cstr]
  exact strncmpEq_iff_isPrefix (by decide)

/-- A round of the loop on the next line. -/
theorem ioStep_pieces {s : IoState} (htext : OnText s.fp) {line : Bytes} {lines : List Bytes}
    (hpieces : pieces 1023 s.fp.rest = line :: lines) {name : CharArray 20} {data : Fin 8 → Double}
    (hassign : ioAssign (sscanf line ioFormat) s.devName s.data = some (some name, data)) :
    ioStep s = .inl (ioLine name
      { s with fp := (fgets 1023 s.fp).2.2, devName := some name, data }) := by
  obtain ⟨hok, hbytes, -⟩ := htext.fgets_pieces (by decide) hpieces
  simp only [ioStep, hok, hbytes, hassign, if_true]

/-! ### The first report -/

/-- The loop stands before some lines and has not come to the second title. -/
structure Before (s : IoState) (lines : List Bytes) : Prop where
  onText : OnText s.fp
  lines_eq : pieces 1023 s.fp.rest = lines
  secondTime : s.secondTime = false
  readIO : s.readIO = 0
  writeIO : s.writeIO = 0

theorem before_ioInit {pipe : Stream} (h : OnText pipe) :
    Before (ioInit pipe) (pieces 1023 pipe.rest) := ⟨h, rfl, rfl, rfl, rfl⟩

theorem Before.next {s : IoState} {line : Bytes} {lines : List Bytes}
    (h : Before s (line :: lines)) (name : CharArray 20) (data : Fin 8 → Double) :
    Before { s with fp := (fgets 1023 s.fp).2.2, devName := some name, data } lines where
  onText := h.onText.fgets 1023
  lines_eq := (h.onText.fgets_pieces (by decide) h.lines_eq).2.2
  secondTime := h.secondTime
  readIO := h.readIO
  writeIO := h.writeIO

/-- Whatever a line that is no title leaves behind, nothing of it is added up. -/
theorem goes_between {between lines : List Bytes}
    (hfits : ∀ line ∈ between, (token line).length < 20)
    (hdevice : ∀ line ∈ between, ¬ascii "Device" <+: token line) {s : IoState}
    (h : Before s (between ++ lines))
    (hname : (∃ name, s.devName = some name ∧ isDevice name = false) ∨
      ∀ line ∈ between.head?, token line ≠ []) :
    ∃ t, Loop.Goes ioStep s t ∧ Before t lines := by
  induction between generalizing s with
  | nil => exact ⟨s, .refl s, h⟩
  | cons line between ih =>
    have hnext : ∃ name data, ioAssign (sscanf line ioFormat) s.devName s.data =
        some (some name, data) ∧ isDevice name = false := by
      rcases sscanf_token line with ⟨hnil, hitems⟩ | ⟨more, hitems⟩
      · rcases hname with ⟨name, hname, hdev⟩ | hhead
        · exact ⟨name, s.data, by rw [hitems, ioAssign_nil, hname], hdev⟩
        · exact absurd hnil (hhead line rfl)
      · obtain ⟨name, hdev, hassign⟩ := exists_ioAssign_word (hfits line (by simp)) more
        refine ⟨name, _, by rw [hitems, hassign], ?_⟩
        rw [← Bool.not_eq_true, hdev]
        exact hdevice line (by simp)
    obtain ⟨name, data, hassign, hdev⟩ := hnext
    have hstep := ioStep_pieces h.onText h.lines_eq hassign
    rw [ioLine_idle (by exact h.secondTime.trans hdev.symm)] at hstep
    obtain ⟨t, hgoes, ht⟩ := ih (fun l hl => hfits l (by simp [hl]))
      (fun l hl => hdevice l (by simp [hl])) (h.next name data) (.inl ⟨name, rfl, hdev⟩)
    exact ⟨t, .head hstep hgoes, ht⟩

/-! ### Two runs -/

/-- Two states behind the second title that will add up the same numbers: where `devName` holds the
name of a device, the entries of `data` that are added have been overwritten. -/
structure Agree (s s' : IoState) : Prop where
  onText : OnText s.fp
  onText' : OnText s'.fp
  pieces_eq : pieces 1023 s.fp.rest = pieces 1023 s'.fp.rest
  lines : ∀ line ∈ pieces 1023 s.fp.rest, Blank line ∨ HasRates line
  named : ∃ name, s.devName = some name ∧ s'.devName = some name ∧
    (isDevice name = false → s.data 1 = s'.data 1 ∧ s.data 2 = s'.data 2)
  secondTime : s.secondTime = true
  secondTime' : s'.secondTime = true
  readIO : s.readIO = s'.readIO
  writeIO : s.writeIO = s'.writeIO

theorem Agree.ioLine {s s' : IoState} (h : Agree s s') {name : CharArray 20}
    (hname : s.devName = some name) : Agree (ioLine name s) (ioLine name s') := by
  obtain ⟨name, hsome, -, hdata⟩ := h.named
  cases hname.symm.trans hsome
  cases hdev : isDevice name with
  | true =>
    rw [ioLine_idle (h.secondTime.trans hdev.symm), ioLine_idle (h.secondTime'.trans hdev.symm)]
    exact h
  | false =>
    obtain ⟨hread, hwrite⟩ := hdata hdev
    rw [ioLine_device h.secondTime hdev, ioLine_device h.secondTime' hdev]
    refine { h with readIO := ?_, writeIO := ?_ }
    · simp only [h.readIO, hread]
    · simp only [h.writeIO, hwrite]

/-- What a line behind the second title stores does not depend on what was stored before. -/
theorem Agree.exists_ioAssign {s s' : IoState} (h : Agree s s') {line : Bytes}
    (hline : Blank line ∨ HasRates line) :
    ∃ name data data', ioAssign (sscanf line ioFormat) s.devName s.data =
        some (some name, data) ∧
      ioAssign (sscanf line ioFormat) s'.devName s'.data = some (some name, data') ∧
      (isDevice name = false → data 1 = data' 1 ∧ data 2 = data' 2) := by
  rcases hline with hblank | ⟨w, x, y, z, more, hfits, hitems⟩
  · obtain ⟨name, hname, hname', hdata⟩ := h.named
    refine ⟨name, s.data, s'.data, ?_, ?_, hdata⟩
    · rw [sscanf_blank hblank, ioAssign_nil, hname]
    · rw [sscanf_blank hblank, ioAssign_nil, hname']
  · obtain ⟨name, -, hassign⟩ :=
      exists_ioAssign_word hfits (.double x :: .double y :: .double z :: more)
    refine ⟨name, _, _, by rw [hitems, hassign], by rw [hitems, hassign], fun _ => ?_⟩
    simp [Item.double?]

/-- The loop is left in both states, with the same rates, or goes on in both. -/
theorem Agree.step {s s' : IoState} (h : Agree s s') :
    (∃ r, (∃ rates, r = some rates) ∧ ioStep s = .inr r ∧ ioStep s' = .inr r) ∨
      ∃ t t', ioStep s = .inl t ∧ ioStep s' = .inl t' ∧ Agree t t' ∧
        t.fp.rest.length < s.fp.rest.length := by
  have hsize : 1 < 1023 := by decide
  have hpieces' := h.pieces_eq
  cases hpieces : pieces 1023 s.fp.rest with
  | nil =>
    left
    rw [hpieces] at hpieces'
    have hok := h.onText.fgets_nil ((pieces_eq_nil_iff hsize).mp hpieces) hsize
    have hok' := h.onText'.fgets_nil ((pieces_eq_nil_iff hsize).mp hpieces'.symm) hsize
    refine ⟨some (s.readIO, s.writeIO), ⟨_, rfl⟩, ?_, ?_⟩
    · simp [ioStep, hok]
    · simp [ioStep, hok', h.readIO, h.writeIO]
  | cons line lines =>
    right
    have hlines := h.lines
    rw [hpieces, List.forall_mem_cons] at hlines
    rw [hpieces] at hpieces'
    have hrest := (h.onText.fgets_pieces hsize hpieces).2.2
    have hrest' := (h.onText'.fgets_pieces hsize hpieces'.symm).2.2
    obtain ⟨name, data, data', hassign, hassign', hdata⟩ := h.exists_ioAssign hlines.1
    have hstep := ioStep_pieces h.onText hpieces hassign
    have hstep' := ioStep_pieces h.onText' hpieces'.symm hassign'
    refine ⟨_, _, hstep, hstep', ?_, length_ioStep_lt hstep⟩
    apply Agree.ioLine _ rfl
    exact {
      onText := h.onText.fgets 1023
      onText' := h.onText'.fgets 1023
      pieces_eq := hrest.trans hrest'.symm
      lines := by
        simp only [hrest]
        exact hlines.2
      named := ⟨name, rfl, rfl, hdata⟩
      secondTime := h.secondTime
      secondTime' := h.secondTime'
      readIO := h.readIO
      writeIO := h.writeIO }

end DiskPrivate

namespace IoOutput

/-- The loop comes to the second title with nothing added up. -/
theorem exists_goes_title (o : IoOutput) : ∃ t, Loop.Goes ioStep
    (ioInit (fgets 1023 (fgets 1023 (fgets 1023 (.ofText o.text)).2.2).2.2).2.2) t ∧
      Before t (o.title :: o.behind) := by
  have hbefore :=
    before_ioInit ((((OnText.ofText o.text).fgets 1023).fgets 1023).fgets 1023)
  have hpieces : pieces 1023 (Stream.ofText o.text).rest =
      o.head ++ (o.between ++ o.title :: o.behind) := o.pieces_eq
  rw [pieces_title, hpieces, List.drop_left' o.head_length] at hbefore
  apply goes_between o.between_fits o.between_device hbefore
  right
  intro line hline
  have hmem := List.mem_of_mem_head? hline
  exact token_ne_nil (o.between_noNul line hmem) (o.between_head line hline)

end IoOutput

namespace DiskPrivate

/-- The second title makes two states agree. -/
theorem agree_of_title {s s' : IoState} {title : Bytes} {lines : List Bytes}
    (h : Before s (title :: lines)) (h' : Before s' (title :: lines))
    (hfits : (token title).length < 20) (hdevice : ascii "Device" <+: token title)
    (hlines : ∀ line ∈ lines, Blank line ∨ HasRates line) :
    ∃ t t', ioStep s = .inl t ∧ ioStep s' = .inl t' ∧ Agree t t' := by
  obtain ⟨more, hitems⟩ : ∃ more, sscanf title ioFormat = .word (token title) :: more := by
    rcases sscanf_token title with ⟨hnil, -⟩ | hmore
    · rw [hnil, List.prefix_nil] at hdevice
      cases hdevice
    · exact hmore
  obtain ⟨name, hdev, hassign⟩ := exists_ioAssign_word hfits more
  rw [← hitems] at hassign
  have hname := hdev.mpr hdevice
  have hstep := ioStep_pieces h.onText h.lines_eq (hassign _ _)
  have hstep' := ioStep_pieces h'.onText h'.lines_eq (hassign _ _)
  rw [ioLine_title (by exact h.secondTime) hname] at hstep
  rw [ioLine_title (by exact h'.secondTime) hname] at hstep'
  have hrest := (h.onText.fgets_pieces (by decide) h.lines_eq).2.2
  have hrest' := (h'.onText.fgets_pieces (by decide) h'.lines_eq).2.2
  refine ⟨_, _, hstep, hstep', ?_⟩
  exact {
    onText := h.onText.fgets 1023
    onText' := h'.onText.fgets 1023
    pieces_eq := hrest.trans hrest'.symm
    lines := by
      simp only [hrest]
      exact hlines
    named := ⟨name, rfl, rfl, fun hfalse => absurd hname (by simp [hfalse])⟩
    secondTime := rfl
    secondTime' := rfl
    readIO := h.readIO.trans h'.readIO.symm
    writeIO := h.writeIO.trans h'.writeIO.symm }

/-- Outputs that agree from the second title on yield the same rates, and their first reports leave
no trace in them. -/
theorem diskIO_eq_of_secondReport (a b : IoOutput) (htitle : a.title = b.title)
    (hbehind : a.behind = b.behind) : ∃ rates,
      diskIO (.ofText a.text) = some rates ∧ diskIO (.ofText b.text) = some rates := by
  obtain ⟨s, hgoes, hs⟩ := a.exists_goes_title
  obtain ⟨s', hgoes', hs'⟩ := b.exists_goes_title
  rw [← htitle, ← hbehind] at hs'
  obtain ⟨t, t', hstep, hstep', hagree⟩ :=
    agree_of_title hs hs' a.title_fits a.title_device a.behind_rates
  obtain ⟨r, ⟨rates, rfl⟩, hreturns, hreturns'⟩ :=
    Loop.exists_returns_of_agree Agree (fun r => ∃ rates, r = some rates)
      (fun s => s.fp.rest.length) (fun _ _ => Agree.step) hagree
  refine ⟨rates, ?_, ?_⟩
  · rw [diskIO_eq_some_iff]
    exact hgoes.returns (.next hstep hreturns)
  · rw [diskIO_eq_some_iff]
    exact hgoes'.returns (.next hstep' hreturns')

/-- A device row has its name and three numbers. -/
theorem hasRates_row {r : IoRow} (h : 0 ∉ r.name.text) : HasRates (r.text ++ [newline]) := by
  obtain ⟨more, hitems⟩ := IoRow.sscanf_text h
  exact ⟨_, _, _, _, more, r.name_fits, hitems⟩

/-- An output with one line and a blank line between the titles. -/
def sampleOutput (line : Bytes) (h : newline ∉ line ∧ line.length < 1022 ∧ 0 ∉ line ++ [newline] ∧
    ¬Blank (line ++ [newline]) ∧ (token (line ++ [newline])).length < 20 ∧
    ¬ascii "Device" <+: token (line ++ [newline])) : IoOutput where
  text := unlines [ascii "Linux", [], sampleTitle.text, line, [], sampleTitle.text,
    sampleIoRow.text, []]
  head := [ascii "Linux" ++ [newline], [newline], sampleTitle.text ++ [newline]]
  between := [line ++ [newline], [newline]]
  title := sampleTitle.text ++ [newline]
  behind := [sampleIoRow.text ++ [newline], [newline]]
  pieces_eq := by
    rw [← List.append_nil (unlines _), pieces_unlines, pieces_nil]
    · rfl
    · have hfits := h.2.1
      simp only [List.forall_mem_cons]
      refine ⟨by decide, by decide, by decide, ⟨h.1, by omega⟩, by decide, by decide, by decide,
        by decide, by simp⟩
  head_length := rfl
  between_noNul := by
    simp only [List.forall_mem_cons]
    exact ⟨h.2.2.1, by decide, by simp⟩
  between_head := by
    rintro _ ⟨⟩
    exact h.2.2.2.1
  between_fits := by
    simp only [List.forall_mem_cons]
    exact ⟨h.2.2.2.2.1, by decide, by simp⟩
  between_device := by
    simp only [List.forall_mem_cons]
    exact ⟨h.2.2.2.2.2, by decide, by simp⟩
  title_fits := by decide
  title_device := by decide
  behind_rates := by
    simp only [List.forall_mem_cons]
    exact ⟨.inr (hasRates_row whole_sampleIoRow.noNul), .inl (by decide), by simp⟩

/-- A device row and a line that is none, in front of the same second report. -/
theorem diskIO_eq_of_secondReport_sample : ∃ rates,
    diskIO (.ofText (sampleOutput (ascii "sda 1 8 9") (by decide)).text) = some rates ∧
      diskIO (.ofText (sampleOutput (ascii "??? nan") (by decide)).text) = some rates :=
  diskIO_eq_of_secondReport _ _ rfl rfl

end DiskPrivate

end ComputerMonitor
