import ComputerMonitor.DiskMonitor

/-! The two reports of `iostat -d 1 2` and the rates that `DiskIO` adds up from them. -/

namespace ComputerMonitor

open Bytes Scan Stdio

/-- A line shorter than the buffer. -/
structure IoText where
  text : Bytes
  inLine : newline ∉ text
  fits : text.length < 1024

/-- One call of `fgets` takes the line with its newline. -/
def IoText.Whole (l : IoText) : Prop := l.text.length < 1022

instance (l : IoText) : Decidable l.Whole := inferInstanceAs (Decidable (l.text.length < 1022))

structure BlankLine extends IoText where
  blank : Blank text

structure TitleLine extends IoText where
  device : ascii "Device" <+: text

/-- A device with its transfers and the kilobytes read and written per second.  What follows the
third number does not matter. -/
structure IoRow where
  name : Word
  tps : Decimal
  read : Decimal
  write : Decimal
  beforeTps : Gap
  beforeRead : Gap
  beforeWrite : Gap
  tail : Bytes
  name_fits : name.text.length < 20
  name_device : ¬ascii "Device" <+: name.text
  tail_ends : Ends tail
  tail_inLine : newline ∉ tail
  fits : (name.text ++ (beforeTps.text ++ (tps.text ++ (beforeRead.text ++ (read.text ++
    (beforeWrite.text ++ (write.text ++ tail))))))).length < 1024

/-- The output of `iostat -d 1 2`. -/
structure IoReport where
  banner : IoText
  first : BlankLine
  title : TitleLine
  sinceBoot : List IoRow
  between : List BlankLine
  secondTitle : TitleLine
  rows : List IoRow
  trailing : List BlankLine
  sinceBoot_ne : sinceBoot ≠ []
  between_ne : between ≠ []

/-- The first token of a title as `%s` sees it: up to a blank or a NUL. -/
def TitleLine.token (t : TitleLine) : Bytes :=
  (cstr (t.text ++ [newline])).takeWhile fun b => !isSpace b

namespace IoRow

def text (r : IoRow) : Bytes :=
  r.name.text ++ (r.beforeTps.text ++ (r.tps.text ++ (r.beforeRead.text ++ (r.read.text ++
    (r.beforeWrite.text ++ (r.write.text ++ r.tail))))))

def line (r : IoRow) : IoText where
  text := r.text
  inLine := by
    simp [text, r.name.solid.newline_notMem, r.beforeTps.inLine, r.beforeRead.inLine,
      r.beforeWrite.inLine, r.tail_inLine,
      Decimal.notMem_text (show isDecimalByte newline = false by decide)]
  fits := r.fits

/-- The scan sees all of the name, and behind it the rest of the line. -/
structure Whole (r : IoRow) : Prop where
  noNul : 0 ∉ r.name.text
  line : r.line.Whole

/-- The eight conversions read the name and the three numbers; the numbers behind them go to entries
of `data` that nothing looks at. -/
theorem sscanf_text {r : IoRow} (h : 0 ∉ r.name.text) :
    ∃ more, sscanf (r.text ++ [newline]) DiskPrivate.ioFormat =
      .word r.name.text :: .double (.finite r.tps.value) :: .double (.finite r.read.value) ::
        .double (.finite r.write.value) :: more := by
  have hdec : ∀ d : Decimal, 0 ∉ d.text := Decimal.notMem_text (by decide)
  have htail : Ends (cstr (r.tail ++ [newline])) := by
    refine Stops.of_prefix ?_ (prefix_cstr _)
    cases ht : r.tail with
    | nil => simp [isSpace, newline]
    | cons b s =>
      have h := r.tail_ends
      rw [ht] at h
      exact h.append (by simp)
  have hcstr : cstr (r.text ++ [newline]) = [] ++ (r.name.text ++ (r.beforeTps.text ++
      (r.tps.text ++ (r.beforeRead.text ++ (r.read.text ++ (r.beforeWrite.text ++
        (r.write.text ++ cstr (r.tail ++ [newline])))))))) := by
    simp only [text, List.append_assoc, List.nil_append]
    rw [cstr_append h, cstr_append r.beforeTps.zero_notMem, cstr_append (hdec _),
      cstr_append r.beforeRead.zero_notMem, cstr_append (hdec _),
      cstr_append r.beforeWrite.zero_notMem, cstr_append (hdec _)]
  rw [sscanf, hcstr, DiskPrivate.ioFormat,
    scan_cons (read_word .nil r.name.solid r.name.ne (r.beforeTps.ends _)),
    scan_cons (read_double r.beforeTps.blank r.tps (r.beforeRead.ends _)),
    scan_cons (read_double r.beforeRead.blank r.read (r.beforeWrite.ends _)),
    scan_cons (read_double r.beforeWrite.blank r.write htail)]
  exact ⟨_, rfl⟩

def devName (r : IoRow) (h : 0 ∉ r.name.text) : CharArray 20 := ⟨r.name.text, h, r.name_fits⟩

/-- The two rates of the row. -/
def rates (r : IoRow) : ℚ × ℚ := (r.read.value, r.write.value)

theorem isDevice_devName (r : IoRow) (h : 0 ∉ r.name.text) :
    DiskPrivate.isDevice (r.devName h) = false := by
  rw [Bool.eq_false_iff]
  intro hdevice
  exact r.name_device ((strncmpEq_iff_isPrefix (by decide)).mp hdevice)

theorem ioAssign_text {r : IoRow} (h : 0 ∉ r.name.text) (devName : Option (CharArray 20))
    (data : Fin 8 → Double) :
    ∃ data', DiskPrivate.ioAssign (sscanf (r.text ++ [newline]) DiskPrivate.ioFormat)
        devName data = some (some (r.devName h), data') ∧
      data' 1 = .finite r.rates.1 ∧ data' 2 = .finite r.rates.2 := by
  obtain ⟨more, hmore⟩ := sscanf_text h
  have hstore : CharArray.store 20 r.name.text = some (r.devName h) :=
    CharArray.strcpy_self (r.devName h)
  simp only [hmore, DiskPrivate.ioAssign, hstore, Option.map_some, Option.some.injEq,
    Prod.mk.injEq, true_and]
  exact ⟨_, rfl, by simp [Item.double?, rates], by simp [Item.double?, rates]⟩

end IoRow

theorem DiskPrivate.sscanf_blank {line : Bytes} (h : Blank line) :
    sscanf line DiskPrivate.ioFormat = [] := by
  have hblank : Blank (cstr line) := fun b hb => h b ((prefix_cstr line).subset hb)
  rw [sscanf, DiskPrivate.ioFormat, scan_word_blank hblank]

theorem BlankLine.sscanf_text (b : BlankLine) :
    sscanf (b.text ++ [newline]) DiskPrivate.ioFormat = [] := by
  apply DiskPrivate.sscanf_blank
  exact b.blank.append (by simp [isSpace, newline])

namespace TitleLine

theorem device_prefix_token (t : TitleLine) : ascii "Device" <+: t.token := by
  obtain ⟨u, hu⟩ := t.device
  have hdevice : Solid (ascii "Device") := by decide
  have hsolid : ∀ b ∈ ascii "Device", (!isSpace b) = true := fun b hb => by simp [hdevice b hb]
  rw [token, ← hu, List.append_assoc, cstr_append (by decide), List.takeWhile_append_of_pos hsolid]
  exact List.prefix_append _ _

theorem sscanf_text (t : TitleLine) : ∃ more,
    sscanf (t.text ++ [newline]) DiskPrivate.ioFormat = .word t.token :: more := by
  have hne : t.token ≠ [] := by
    obtain ⟨u, hu⟩ := t.device_prefix_token
    rw [← hu]
    simp [ascii]
  have hsolid : Solid t.token := by
    intro b hb
    simpa using List.mem_takeWhile_imp hb
  have hread := read_word .nil hsolid hne
    (stops_dropWhile (fun b => !isSpace b) (cstr (t.text ++ [newline])))
  rw [token, List.takeWhile_append_dropWhile, List.nil_append] at hread
  rw [sscanf, DiskPrivate.ioFormat, scan_cons hread]
  exact ⟨_, rfl⟩

end TitleLine

namespace DiskPrivate

/-- The loop stands before `rest`, with what it has added up. -/
structure At (s : IoState) (rest : Bytes) (secondTime : Bool) (sum : ℚ × ℚ) : Prop where
  fp : s.fp = .ofText rest
  secondTime : s.secondTime = secondTime
  readIO : s.readIO = .finite sum.1
  writeIO : s.writeIO = .finite sum.2

/-- `devName` has been filled, with a title or with the name of a device. -/
def Named (s : IoState) (device : Bool) : Prop :=
  ∃ devName, s.devName = some devName ∧ isDevice devName = device

/-- The two entries of `data` that are added up. -/
structure Holds (s : IoState) (rates : ℚ × ℚ) : Prop where
  read : s.data 1 = .finite rates.1
  write : s.data 2 = .finite rates.2

theorem at_ioInit (rest : Bytes) : At (ioInit (.ofText rest)) rest false 0 := ⟨rfl, rfl, rfl, rfl⟩

theorem ioStep_line {s : IoState} {l : IoText} (hl : l.Whole) {rest : Bytes}
    (hfp : s.fp = .ofText (l.text ++ newline :: rest)) {devName : CharArray 20}
    {data : Fin 8 → Double}
    (h : ioAssign (sscanf (l.text ++ [newline]) ioFormat) s.devName s.data =
      some (some devName, data)) :
    ioStep s =
      .inl (ioLine devName { s with fp := .ofText rest, devName := some devName, data }) := by
  have hline := fgets_line l.inLine (Nat.add_lt_add_right hl 1) rest .eof false
  simp only [ioStep, hfp, Stream.ofText, hline, h, if_true]

/-- Before the second title a device row is only remembered. -/
theorem ioStep_sinceBoot {s : IoState} {r : IoRow} (h : r.Whole) {rest : Bytes} {sum : ℚ × ℚ}
    (hat : At s (r.text ++ newline :: rest) false sum) :
    ∃ t, ioStep s = .inl t ∧ At t rest false sum ∧ Named t false := by
  obtain ⟨data, hassign, -, -⟩ := IoRow.ioAssign_text h.noNul s.devName s.data
  have hdevice := r.isDevice_devName h.noNul
  have hstep := ioStep_line h.line hat.fp hassign
  rw [ioLine_idle] at hstep
  · exact ⟨_, hstep, ⟨rfl, hat.secondTime, hat.readIO, hat.writeIO⟩, _, rfl, hdevice⟩
  · exact hat.secondTime.trans hdevice.symm

/-- Behind it the rates of the row are added. -/
theorem ioStep_row {s : IoState} {r : IoRow} (h : r.Whole) {rest : Bytes} {sum : ℚ × ℚ}
    (hat : At s (r.text ++ newline :: rest) true sum) :
    ∃ t, ioStep s = .inl t ∧ At t rest true (sum + r.rates) ∧ Named t false ∧ Holds t r.rates := by
  obtain ⟨data, hassign, hread, hwrite⟩ := IoRow.ioAssign_text h.noNul s.devName s.data
  have hdevice := r.isDevice_devName h.noNul
  have hstep := ioStep_line h.line hat.fp hassign
  rw [ioLine_device (by exact hat.secondTime) hdevice] at hstep
  refine ⟨_, hstep, ⟨rfl, hat.secondTime, ?_, ?_⟩, ⟨_, rfl, hdevice⟩, hread, hwrite⟩
  · simp [hat.readIO, hread]
  · simp [hat.writeIO, hwrite]

theorem ioStep_title {s : IoState} {t : TitleLine} (h : t.Whole) (hfit : t.token.length < 20)
    {rest : Bytes} {sum : ℚ × ℚ} (hat : At s (t.text ++ newline :: rest) false sum) :
    ∃ u, ioStep s = .inl u ∧ At u rest true sum ∧ Named u true := by
  obtain ⟨more, hmore⟩ := t.sscanf_text
  obtain ⟨name, hname⟩ := Option.isSome_iff_exists.mp (CharArray.store_isSome.mpr hfit)
  have hdev : isDevice name = true := by
    rw [isDevice, CharArray.str_of_store hname, strncmpEq_cstr]
    exact (strncmpEq_iff_isPrefix (by decide)).mpr t.device_prefix_token
  have hassign : ioAssign (sscanf (t.text ++ [newline]) ioFormat) s.devName s.data =
      some (some name, fun i : Fin 8 => (more.filterMap Item.double?).getD i (s.data i)) := by
    rw [hmore, ioAssign, hname]
    rfl
  have hstep := ioStep_line h hat.fp hassign
  rw [ioLine_title (by exact hat.secondTime) hdev] at hstep
  exact ⟨_, hstep, ⟨rfl, rfl, hat.readIO, hat.writeIO⟩, name, rfl, hdev⟩

/-- A title whose first token does not fit `devName` is stored past its end. -/
theorem ioStep_long_title {s : IoState} {t : TitleLine} (h : t.Whole)
    (hfit : ¬t.token.length < 20) {rest : Bytes} {second : Bool} {sum : ℚ × ℚ}
    (hat : At s (t.text ++ newline :: rest) second sum) : ioStep s = .inr none := by
  obtain ⟨more, hmore⟩ := t.sscanf_text
  have hstore : CharArray.store 20 t.token = none := by
    rw [← Option.not_isSome_iff_eq_none, CharArray.store_isSome]
    exact hfit
  have hline := fgets_line t.inLine (Nat.add_lt_add_right h 1) rest .eof false
  simp only [ioStep, hat.fp, Stream.ofText, hline, hmore, ioAssign, hstore, if_true,
    Option.map_none]

/-- A blank line leaves name and numbers as they are. -/
theorem ioStep_blank {s : IoState} {b : BlankLine} (h : b.Whole) {rest : Bytes}
    (hfp : s.fp = .ofText (b.text ++ newline :: rest)) {name : CharArray 20}
    (hname : s.devName = some name) :
    ioStep s = .inl (ioLine name { s with fp := .ofText rest }) := by
  have hassign : ioAssign (sscanf (b.text ++ [newline]) ioFormat) s.devName s.data =
      some (some name, s.data) := by
    simp [b.sscanf_text, ioAssign, hname]
  have hstep := ioStep_line h hfp hassign
  rwa [← hname] at hstep

/-- Behind a device before the second title, or right behind that title, it does nothing. -/
theorem ioStep_blank_idle {s : IoState} {b : BlankLine} (h : b.Whole) {rest : Bytes}
    {second : Bool} {sum : ℚ × ℚ} (hat : At s (b.text ++ newline :: rest) second sum)
    (hname : Named s second) :
    ∃ t, ioStep s = .inl t ∧ At t rest second sum ∧ Named t second := by
  obtain ⟨name, hsome, hdev⟩ := hname
  have hstep := ioStep_blank h hat.fp hsome
  rw [ioLine_idle] at hstep
  · exact ⟨_, hstep, ⟨rfl, hat.secondTime, hat.readIO, hat.writeIO⟩, name, hsome, hdev⟩
  · exact hat.secondTime.trans hdev.symm

/-- Behind a row of the second report it adds the rates of that row again. -/
theorem ioStep_blank_again {s : IoState} {b : BlankLine} (h : b.Whole) {rest : Bytes}
    {sum q : ℚ × ℚ} (hat : At s (b.text ++ newline :: rest) true sum) (hname : Named s false)
    (hq : Holds s q) :
    ∃ t, ioStep s = .inl t ∧ At t rest true (sum + q) ∧ Named t false ∧ Holds t q := by
  obtain ⟨name, hsome, hdev⟩ := hname
  have hstep := ioStep_blank h hat.fp hsome
  rw [ioLine_device (by exact hat.secondTime) hdev] at hstep
  refine ⟨_, hstep, ⟨rfl, hat.secondTime, ?_, ?_⟩, ⟨name, hsome, hdev⟩, hq.read, hq.write⟩
  · simp [hat.readIO, hq.read]
  · simp [hat.writeIO, hq.write]

theorem goes_sinceBoot {rows : List IoRow} (h : ∀ r ∈ rows, r.Whole) (hne : rows ≠ [])
    {s : IoState} {rest : Bytes} {sum : ℚ × ℚ}
    (hat : At s (unlines (rows.map IoRow.text) ++ rest) false sum) :
    ∃ t, Loop.Goes ioStep s t ∧ At t rest false sum ∧ Named t false := by
  induction rows generalizing s with
  | nil => exact absurd rfl hne
  | cons r rows ih =>
    simp only [List.map_cons, unlines_cons, List.append_assoc, List.cons_append] at hat
    rw [List.forall_mem_cons] at h
    obtain ⟨t, hst, ht, hname⟩ := ioStep_sinceBoot h.1 hat
    cases rows with
    | nil => exact ⟨t, .head hst (.refl t), ht, hname⟩
    | cons q rows =>
      obtain ⟨u, htu, hu⟩ := ih h.2 (by simp) ht
      exact ⟨u, .head hst htu, hu⟩

theorem goes_blanks_idle {blanks : List BlankLine} (h : ∀ b ∈ blanks, b.Whole) {s : IoState}
    {rest : Bytes} {second : Bool} {sum : ℚ × ℚ}
    (hat : At s (unlines (blanks.map (·.text)) ++ rest) second sum)
    (hname : Named s second) : ∃ t, Loop.Goes ioStep s t ∧ At t rest second sum := by
  induction blanks generalizing s with
  | nil => exact ⟨s, .refl s, hat⟩
  | cons b blanks ih =>
    simp only [List.map_cons, unlines_cons, List.append_assoc, List.cons_append] at hat
    rw [List.forall_mem_cons] at h
    obtain ⟨t, hst, ht, hname⟩ := ioStep_blank_idle h.1 hat hname
    obtain ⟨u, htu, hu⟩ := ih h.2 ht hname
    exact ⟨u, .head hst htu, hu⟩

theorem goes_blanks_again {blanks : List BlankLine} (h : ∀ b ∈ blanks, b.Whole) {s : IoState}
    {rest : Bytes} {sum q : ℚ × ℚ} (hat : At s (unlines (blanks.map (·.text)) ++ rest) true sum)
    (hname : Named s false) (hq : Holds s q) :
    ∃ t, Loop.Goes ioStep s t ∧ At t rest true (sum + blanks.length • q) := by
  induction blanks generalizing s sum with
  | nil => exact ⟨s, .refl s, by simpa using hat⟩
  | cons b blanks ih =>
    simp only [List.map_cons, unlines_cons, List.append_assoc, List.cons_append] at hat
    rw [List.forall_mem_cons] at h
    obtain ⟨t, hst, ht, hname, hq⟩ := ioStep_blank_again h.1 hat hname hq
    obtain ⟨u, htu, hu⟩ := ih h.2 ht hname hq
    refine ⟨u, .head hst htu, ?_⟩
    rwa [List.length_cons, succ_nsmul', ← add_assoc]

/-- Behind the second title the rates of all rows are added, and those of the last stay behind. -/
theorem goes_rows {rows : List IoRow} (h : ∀ r ∈ rows, r.Whole) {s : IoState} {rest : Bytes}
    {sum : ℚ × ℚ} (hat : At s (unlines (rows.map IoRow.text) ++ rest) true sum) :
    ∃ t, Loop.Goes ioStep s t ∧ At t rest true (sum + (rows.map IoRow.rates).sum) ∧
      (rows = [] → t = s) ∧ ∀ r ∈ rows.getLast?, Named t false ∧ Holds t r.rates := by
  induction rows generalizing s sum with
  | nil => exact ⟨s, .refl s, by simpa using hat, fun _ => rfl, by simp⟩
  | cons r rows ih =>
    simp only [List.map_cons, unlines_cons, List.append_assoc, List.cons_append] at hat
    rw [List.forall_mem_cons] at h
    obtain ⟨t, hst, ht, hname, hholds⟩ := ioStep_row h.1 hat
    obtain ⟨u, htu, hu, hnil, hlast⟩ := ih h.2 ht
    refine ⟨u, .head hst htu, by simpa [add_assoc] using hu, by simp, ?_⟩
    cases rows with
    | nil =>
      rw [hnil rfl]
      simpa using ⟨hname, hholds⟩
    | cons q rows => simpa using hlast

theorem ioStep_end {s : IoState} {second : Bool} {sum : ℚ × ℚ} (hat : At s [] second sum) :
    ioStep s = .inr (some (.finite sum.1, .finite sum.2)) := by
  simp [ioStep, hat.fp, hat.readIO, hat.writeIO, Stream.ofText,
    fgets_eof (show 1 < 1023 by decide)]

end DiskPrivate

namespace IoReport

def text (r : IoReport) : Bytes :=
  unlines ([r.banner.text, r.first.text, r.title.text] ++ r.sinceBoot.map IoRow.text ++
    r.between.map (·.text) ++ [r.secondTitle.text] ++ r.rows.map IoRow.text ++
    r.trailing.map (·.text))

/-- The sums of the rates over the devices of the second report. -/
def total (r : IoReport) : ℚ × ℚ := (r.rows.map IoRow.rates).sum

/-- The rates of the last device, which every trailing blank line adds again. -/
def again (r : IoReport) : ℚ × ℚ := (r.rows.getLast?.map IoRow.rates).getD 0

def published (r : IoReport) : ℚ × ℚ := r.total + r.trailing.length • r.again

/-- Each line is taken in one piece, and each name is seen whole. -/
structure Whole (r : IoReport) : Prop where
  banner : r.banner.Whole
  first : r.first.Whole
  title : r.title.Whole
  sinceBoot : ∀ row ∈ r.sinceBoot, row.Whole
  between : ∀ b ∈ r.between, b.Whole
  secondTitle : r.secondTitle.Whole
  rows : ∀ row ∈ r.rows, row.Whole
  trailing : ∀ b ∈ r.trailing, b.Whole

theorem header_line {l : IoText} (h : l.Whole) (rest : Bytes) :
    (fgets 1023 (.ofText (l.text ++ newline :: rest))).2.2 = .ofText rest := by
  rw [Stream.ofText, fgets_line l.inLine (Nat.add_lt_add_right h 1)]
  rfl

theorem diskIO_text_eq_some_iff {r : IoReport} (h : r.Whole) (rates : Double × Double) :
    DiskPrivate.diskIO (.ofText r.text) = some rates ↔
      Loop.Returns DiskPrivate.ioStep (DiskPrivate.ioInit (.ofText
        (unlines (r.sinceBoot.map IoRow.text) ++ (unlines (r.between.map (·.text)) ++
          (r.secondTitle.text ++ newline :: (unlines (r.rows.map IoRow.text) ++
            unlines (r.trailing.map (·.text)))))))) (some rates) := by
  have htext : r.text = r.banner.text ++ newline :: (r.first.text ++ newline ::
      (r.title.text ++ newline :: (unlines (r.sinceBoot.map IoRow.text) ++
        (unlines (r.between.map (·.text)) ++ (r.secondTitle.text ++ newline ::
          (unlines (r.rows.map IoRow.text) ++ unlines (r.trailing.map (·.text)))))))) := by
    simp [text]
  rw [DiskPrivate.diskIO_eq_some_iff, htext, header_line h.banner, header_line h.first,
    header_line h.title]

/-- The first report is read without a trace in the sums. -/
theorem goes_secondTitle {r : IoReport} (h : r.Whole) : ∃ s, Loop.Goes DiskPrivate.ioStep
      (DiskPrivate.ioInit (.ofText (unlines (r.sinceBoot.map IoRow.text) ++
        (unlines (r.between.map (·.text)) ++ (r.secondTitle.text ++ newline ::
          (unlines (r.rows.map IoRow.text) ++ unlines (r.trailing.map (·.text)))))))) s ∧
    DiskPrivate.At s (r.secondTitle.text ++ newline :: (unlines (r.rows.map IoRow.text) ++
      unlines (r.trailing.map (·.text)))) false 0 := by
  obtain ⟨s, hs, hat, hname⟩ :=
    DiskPrivate.goes_sinceBoot h.sinceBoot r.sinceBoot_ne (DiskPrivate.at_ioInit _)
  obtain ⟨t, ht, hat⟩ := DiskPrivate.goes_blanks_idle h.between hat hname
  exact ⟨t, hs.trans ht, hat⟩

/-- What `DiskIO` publishes for a report whose second title fits `devName`. -/
theorem diskIO_text {r : IoReport} (h : r.Whole) (hfit : r.secondTitle.token.length < 20) :
    DiskPrivate.diskIO (.ofText r.text) =
      some (.finite r.published.1, .finite r.published.2) := by
  rw [diskIO_text_eq_some_iff h]
  obtain ⟨s, hs, hat⟩ := goes_secondTitle h
  obtain ⟨t, hst, hat, hname⟩ := DiskPrivate.ioStep_title h.secondTitle hfit hat
  obtain ⟨u, htu, hat, hnil, hlast⟩ := DiskPrivate.goes_rows h.rows hat
  rw [zero_add, ← total, ← List.append_nil (unlines _)] at hat
  have hv : ∃ v, Loop.Goes DiskPrivate.ioStep u v ∧ DiskPrivate.At v [] true r.published := by
    rcases List.eq_nil_or_concat' r.rows with hrows | ⟨rows, row, hrows⟩
    · -- behind the title itself, blank lines do nothing
      rw [hnil hrows] at hat ⊢
      obtain ⟨v, hv, hat⟩ := DiskPrivate.goes_blanks_idle h.trailing hat hname
      exact ⟨v, hv, by simpa [published, again, hrows] using hat⟩
    · have hrow : row ∈ r.rows.getLast? := by simp [hrows]
      obtain ⟨hname, hholds⟩ := hlast row hrow
      obtain ⟨v, hv, hat⟩ := DiskPrivate.goes_blanks_again h.trailing hat hname hholds
      exact ⟨v, hv, by simpa [published, again, hrows] using hat⟩
  obtain ⟨v, huv, hat⟩ := hv
  exact ((hs.trans (.head hst htu)).trans huv).returns (.exit (DiskPrivate.ioStep_end hat))

theorem diskIO_long_title {r : IoReport} (h : r.Whole)
    (hfit : ¬r.secondTitle.token.length < 20) (rates) :
    DiskPrivate.diskIO (.ofText r.text) ≠ some rates := by
  rw [ne_eq, diskIO_text_eq_some_iff h]
  obtain ⟨s, hs, hat⟩ := goes_secondTitle h
  intro hreturns
  have := hreturns.unique
    (hs.returns (.exit (DiskPrivate.ioStep_long_title h.secondTitle hfit hat)))
  cases this

/-- Nothing is added again. -/
theorem published_eq_total_iff (r : IoReport) :
    r.published = r.total ↔
      r.trailing = [] ∨ ∀ row ∈ r.rows.getLast?, row.read.value = 0 ∧ row.write.value = 0 := by
  have hagain : r.again = 0 ↔
      ∀ row ∈ r.rows.getLast?, row.read.value = 0 ∧ row.write.value = 0 := by
    rw [again]
    cases r.rows.getLast? with
    | none => simp
    | some row => simp [IoRow.rates, Prod.ext_iff]
  rw [published, add_eq_left, smul_eq_zero, hagain, List.length_eq_zero_iff]

end IoReport

namespace DiskPrivate

def sampleTitle : TitleLine where
  text := ascii "Device tps kB_read/s kB_wrtn/s"
  inLine := by decide
  fits := by decide
  device := by decide

/-- One disk that reads 3 and writes 4 kB a second. -/
def sampleIoRow : IoRow where
  name := ⟨ascii "sda", by decide, by decide⟩
  tps := .ofNat 1
  read := .ofNat 3
  write := .ofNat 4
  beforeTps := .space
  beforeRead := .space
  beforeWrite := .space
  tail := []
  name_fits := by decide
  name_device := by decide
  tail_ends := by simp
  tail_inLine := by simp
  fits := by decide

def emptyLine : BlankLine where
  text := []
  inLine := by simp
  fits := by simp
  blank := .nil

/-- `iostat` ends its output with an empty line. -/
def sampleReport : IoReport where
  banner := ⟨ascii "Linux", by decide, by decide⟩
  first := emptyLine
  title := sampleTitle
  sinceBoot := [sampleIoRow]
  between := [emptyLine]
  secondTitle := sampleTitle
  rows := [sampleIoRow]
  trailing := [emptyLine]
  sinceBoot_ne := by simp
  between_ne := by simp

theorem whole_sampleIoRow : sampleIoRow.Whole := ⟨by decide, by decide⟩

theorem whole_sampleReport : sampleReport.Whole where
  banner := by decide
  first := by decide
  title := by decide
  sinceBoot := List.forall_mem_singleton.mpr whole_sampleIoRow
  between := List.forall_mem_singleton.mpr (by decide)
  secondTitle := by decide
  rows := List.forall_mem_singleton.mpr whole_sampleIoRow
  trailing := List.forall_mem_singleton.mpr (by decide)

def bareReport : IoReport := { sampleReport with trailing := [] }

end DiskPrivate

end ComputerMonitor
