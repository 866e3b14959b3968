import ComputerMonitor.DiskMonitor

/-! The words that the `%s` conversions of `DiskInfoByDf` and `DiskIO` store, and the arrays they
are stored in. -/

namespace ComputerMonitor

open Bytes Scan Stdio

/-- A word has room in its array, with the terminating zero; numbers have variables of their own. -/
def ItemFits : Item → Option ℕ → Prop
  | .word w, some n => w.length < n
  | _, _ => True

theorem itemFits_none (i : Item) : ItemFits i none := by
  cases i <;> trivial

def ItemsFit (sizes : List (Option ℕ)) (items : List Item) : Prop :=
  ∀ p ∈ items.zip sizes, ItemFits p.1 p.2

namespace DiskPrivate

/-! ### `df` -/

/-- `fileSystem`, `useRate` and `mountedOn` among the arguments of `fscanf`. -/
def dfSizes : List (Option ℕ) := [some 80, none, none, none, some 10, some 80]

/-- What the calls of `fscanf` convert, up to the first that is not complete. -/
def dfScans (s : Bytes) : List (List Item) :=
  if _h : (scan dfFormat s).1.length = 6 then
    (scan dfFormat s).1 :: dfScans (scan dfFormat s).2
  else [(scan dfFormat s).1]
termination_by s.length
decreasing_by
  apply length_scan_word_lt
  intro hnil
  rw [dfFormat, hnil] at _h
  cases _h

theorem dfScans_complete {s : Bytes} (h : (scan dfFormat s).1.length = 6) :
    dfScans s = (scan dfFormat s).1 :: dfScans (scan dfFormat s).2 := by
  rw [dfScans, dif_pos h]

theorem dfScans_incomplete {s : Bytes} (h : (scan dfFormat s).1.length ≠ 6) :
    dfScans s = [(scan dfFormat s).1] := by
  rw [dfScans, dif_neg h]

theorem scanned_dfFormat (s : Bytes) : Scanned dfFormat (scan dfFormat s).1 :=
  scanned_scan (by simp [dfFormat]) s

/-- How far a row can get. -/
theorem dfFormat_cases {items : List Item} (h : Scanned dfFormat items) :
    items = [] ∨
      (∃ (fs : Bytes) (ns : List Double), ns.length ≤ 3 ∧ items = .word fs :: ns.map .double) ∨
      (∃ fs x y z rate, items = [.word fs, .double x, .double y, .double z, .word rate]) ∨
      ∃ fs x y z rate mounted,
        items = [.word fs, .double x, .double y, .double z, .word rate, .word mounted] := by
  cases h with
  | stop => exact .inl rfl
  | word fs h =>
    right
    cases h with
    | stop => exact .inl ⟨fs, [], by simp, rfl⟩
    | double x h =>
      cases h with
      | stop => exact .inl ⟨fs, [x], by simp, rfl⟩
      | double y h =>
        cases h with
        | stop => exact .inl ⟨fs, [x, y], by simp, rfl⟩
        | double z h =>
          cases h with
          | stop => exact .inl ⟨fs, [x, y, z], by simp, rfl⟩
          | word rate h =>
            right
            cases h with
            | stop => exact .inl ⟨fs, x, y, z, rate, rfl⟩
            | word mounted h =>
              cases h with
              | stop => exact .inr ⟨fs, x, y, z, rate, mounted, rfl⟩

theorem exists_store_iff {n : ℕ} {w : Bytes} :
    (∃ a, CharArray.store n w = some a) ↔ w.length < n := by
  rw [← Option.isSome_iff_exists, CharArray.store_isSome]

/-- A store of `fscanf` fails exactly if a word does not fit. -/
theorem dfAssign_ne_none_iff {items : List Item} (h : Scanned dfFormat items) :
    dfAssign items ≠ none ↔ ItemsFit dfSizes items := by
  rcases dfFormat_cases h with rfl | ⟨fs, ns, hns, rfl⟩ | ⟨fs, x, y, z, rate, rfl⟩ |
    ⟨fs, x, y, z, rate, mounted, rfl⟩
  · simp [dfAssign, ItemsFit]
  · match ns, hns with
    | [], _ => simp [dfAssign, ItemsFit, ItemFits, dfSizes, exists_store_iff]
    | [x], _ => simp [dfAssign, ItemsFit, ItemFits, dfSizes, exists_store_iff]
    | [x, y], _ => simp [dfAssign, ItemsFit, ItemFits, dfSizes, exists_store_iff]
    | [x, y, z], _ => simp [dfAssign, ItemsFit, ItemFits, dfSizes, exists_store_iff]
  · simp [dfAssign, ItemsFit, ItemFits, dfSizes, exists_store_iff]
  · simp [dfAssign, ItemsFit, ItemFits, dfSizes, exists_store_iff]

/-- A complete row whose words fit is stored whole. -/
theorem exists_dfAssign {items : List Item} (h : Scanned dfFormat items)
    (hfits : ItemsFit dfSizes items) (hlen : items.length = 6) :
    ∃ v, dfAssign items = some (some v) := by
  rcases dfFormat_cases h with rfl | ⟨fs, ns, hns, rfl⟩ | ⟨fs, x, y, z, rate, rfl⟩ |
    ⟨fs, x, y, z, rate, mounted, rfl⟩
  · simp at hlen
  · simp at hlen
    omega
  · simp at hlen
  · simp [ItemsFit, ItemFits, dfSizes] at hfits
    simp [dfAssign, CharArray.store_eq_some, hfits]

theorem length_of_dfAssign {items : List Item} {v : DfVars}
    (h : dfAssign items = some (some v)) : items.length = 6 := by
  simp only [dfAssign] at h
  split at h
  · rfl
  all_goals simp [Option.bind_eq_some_iff] at h

/-- A round that goes on takes the first of the scans. -/
theorem dfScans_of_dfStep {s t : Bytes × List DFStructInfo} (h : dfStep s = .inl t) :
    dfScans s.1 = (scan dfFormat s.1).1 :: dfScans t.1 := by
  obtain ⟨v, hv, ht, -⟩ := dfStep_eq_inl h
  rw [dfScans_complete (length_of_dfAssign hv), ht]

theorem scan_mem_dfScans (s : Bytes) : (scan dfFormat s).1 ∈ dfScans s := by
  rw [dfScans]
  split <;> simp

/-- From any state on, no store of a word and no copy of one runs past its array. -/
def DfSafe (s : Bytes × List DFStructInfo) : Prop :=
  ∀ t, Loop.Goes dfStep s t → dfAssign (scan dfFormat t.1).1 ≠ none ∧
    ∀ v, dfAssign (scan dfFormat t.1).1 = some (some v) → dfDisk v ≠ none

/-- What a round adds depends on the text alone. -/
theorem exists_dfStep_append {s : Bytes} (hfits : ItemsFit dfSizes (scan dfFormat s).1)
    (hlen : (scan dfFormat s).1.length = 6) :
    ∃ new, ∀ disks, dfStep (s, disks) = .inl ((scan dfFormat s).2, disks ++ new) := by
  obtain ⟨v, hv⟩ := exists_dfAssign (scanned_dfFormat s) hfits hlen
  simp only [dfStep, hv, dfDisk_eq]
  split_ifs
  · exact ⟨_, fun _ => rfl⟩
  · exact ⟨[], fun _ => by simp⟩

theorem dfSafe_iff (s : Bytes × List DFStructInfo) :
    DfSafe s ↔ ∀ items ∈ dfScans s.1, ItemsFit dfSizes items := by
  constructor
  · intro hsafe
    obtain ⟨s, disks⟩ := s
    induction s using dfScans.induct generalizing disks with
    | case1 s hlen ih =>
      have hfits := (dfAssign_ne_none_iff (scanned_dfFormat s)).mp (hsafe _ (.refl _)).1
      obtain ⟨new, hstep⟩ := exists_dfStep_append hfits hlen
      rw [dfScans_of_dfStep (hstep disks), List.forall_mem_cons]
      exact ⟨hfits, ih (disks ++ new) fun t ht => hsafe t (.head (hstep disks) ht)⟩
    | case2 s hlen =>
      rw [dfScans_incomplete hlen, List.forall_mem_singleton]
      exact (dfAssign_ne_none_iff (scanned_dfFormat s)).mp (hsafe _ (.refl _)).1
  · intro hfits t hgoes
    have ht : ∀ items ∈ dfScans t.1, ItemsFit dfSizes items := by
      refine hgoes.invariant (fun t => ∀ items ∈ dfScans t.1, ItemsFit dfSizes items) hfits ?_
      intro u v hu hstep
      rw [dfScans_of_dfStep hstep] at hu
      exact (List.forall_mem_cons.mp hu).2
    refine ⟨(dfAssign_ne_none_iff (scanned_dfFormat t.1)).mpr (ht _ (scan_mem_dfScans t.1)), ?_⟩
    intro v _
    simp [dfDisk_eq]

/-! ### `iostat` -/

/-- `devName` and the seven numbers behind it. -/
def ioSizes : List (Option ℕ) := some 20 :: List.replicate 7 none

theorem ioAssign_ne_none_iff {items : List Item} (h : Scanned ioFormat items)
    (devName : Option (CharArray 20)) (data : Fin 8 → Double) :
    ioAssign items devName data ≠ none ↔ ItemsFit ioSizes items := by
  cases h with
  | stop => simp [ioAssign, ItemsFit]
  | @word _ xs w h =>
    have hrest : ∀ p ∈ xs.zip (List.replicate 7 none), ItemFits p.1 p.2 := by
      intro p hp
      rw [List.eq_of_mem_replicate (List.of_mem_zip hp).2]
      exact itemFits_none p.1
    rw [ItemsFit, ioSizes, List.zip_cons_cons, List.forall_mem_cons, and_iff_left hrest]
    change (CharArray.store 20 w).map _ ≠ none ↔ w.length < 20
    rw [ne_eq, Option.map_eq_none_iff, ← ne_eq, Option.ne_none_iff_exists', exists_store_iff]

theorem scanned_ioFormat (line : Bytes) : Scanned ioFormat (sscanf line ioFormat) :=
  scanned_scan (by simp [ioFormat]) (cstr line)

@[simp] theorem devName_ioLine (devName : CharArray 20) (s : IoState) :
    (ioLine devName s).devName = s.devName := by
  rw [ioLine]
  split_ifs <;> rfl

/-- Whatever `devName` held before, no store of a word runs past it. -/
def IoSafe (pipe : Stream) : Prop :=
  ∀ devName t, Loop.Goes ioStep { ioInit pipe with devName } t → (fgets 1023 t.fp).1 = true →
    ioAssign (sscanf (fgets 1023 t.fp).2.1 ioFormat) t.devName t.data ≠ none

/-- A round goes on when the line's word fits and something is in `devName`. -/
theorem exists_ioStep_eq_inl {s : IoState} (hok : (fgets 1023 s.fp).1 = true)
    (hassign : ioAssign (sscanf (fgets 1023 s.fp).2.1 ioFormat) s.devName s.data ≠ none)
    (hname : s.devName.isSome = true) :
    ∃ t, ioStep s = .inl t ∧ t.fp = (fgets 1023 s.fp).2.2 ∧ t.devName.isSome = true := by
  obtain ⟨⟨name, data⟩, hitems⟩ := Option.ne_none_iff_exists'.mp hassign
  obtain ⟨devName, rfl⟩ : ∃ devName, name = some devName := by
    simp only [ioAssign] at hitems
    split at hitems
    · obtain ⟨devName, -, heq⟩ := Option.map_eq_some_iff.mp hitems
      exact ⟨devName, (congrArg Prod.fst heq).symm⟩
    · cases hitems
      exact Option.isSome_iff_exists.mp hname
  simp only [ioStep, hok, hitems, if_true]
  refine ⟨_, rfl, fp_ioLine _ _, ?_⟩
  rw [devName_ioLine]
  rfl

theorem fp_of_ioStep {s t : IoState} (h : ioStep s = .inl t) :
    (fgets 1023 s.fp).1 = true ∧ t.fp = (fgets 1023 s.fp).2.2 := by
  simp only [ioStep] at h
  split at h
  · rename_i hok
    split at h
    · cases h
      exact ⟨hok, fp_ioLine _ _⟩
    · cases h
  · cases h

theorem itemsFit_of_safe {s : IoState} (htext : OnText s.fp) (hname : s.devName.isSome = true)
    (hsafe : ∀ t, Loop.Goes ioStep s t → (fgets 1023 t.fp).1 = true →
      ioAssign (sscanf (fgets 1023 t.fp).2.1 ioFormat) t.devName t.data ≠ none) :
    ∀ line ∈ pieces 1023 s.fp.rest, ItemsFit ioSizes (sscanf line ioFormat) := by
  induction hn : s.fp.rest.length using Nat.strong_induction_on generalizing s with
  | h n ih =>
    by_cases hrest : s.fp.rest = []
    · simp [hrest]
    · have hok := htext.fgets_ok hrest (show 1 < 1023 by decide)
      have hassign := hsafe s (.refl s) hok
      obtain ⟨t, hstep, hfp, hsome⟩ := exists_ioStep_eq_inl hok hassign hname
      rw [pieces_of_fgets (by decide) hok, List.forall_mem_cons]
      refine ⟨(ioAssign_ne_none_iff (scanned_ioFormat _) _ _).mp hassign, ?_⟩
      rw [← hfp]
      refine ih _ ?_ (hfp ▸ htext.fgets 1023) hsome (fun u hu => hsafe u (.head hstep hu)) rfl
      rw [hfp, ← hn]
      exact fgets_ok_lt (by decide) hok

theorem ioSafe_iff {pipe : Stream} (htext : OnText pipe) :
    IoSafe pipe ↔ ∀ line ∈ pieces 1023 pipe.rest, ItemsFit ioSizes (sscanf line ioFormat) := by
  constructor
  · intro hsafe
    exact itemsFit_of_safe (s := { ioInit pipe with devName := some ⟨[], by simp, by decide⟩ })
      htext rfl (hsafe _)
  · intro hfits devName t hgoes hok
    have ht : ∀ line ∈ pieces 1023 t.fp.rest, ItemsFit ioSizes (sscanf line ioFormat) := by
      refine hgoes.invariant
        (fun t => ∀ line ∈ pieces 1023 t.fp.rest, ItemsFit ioSizes (sscanf line ioFormat)) hfits ?_
      intro u v hu hstep
      obtain ⟨hok, hfp⟩ := fp_of_ioStep hstep
      rw [pieces_of_fgets (by decide) hok, ← hfp] at hu
      exact (List.forall_mem_cons.mp hu).2
    rw [pieces_of_fgets (by decide) hok] at ht
    exact (ioAssign_ne_none_iff (scanned_ioFormat _) _ _).mpr (List.forall_mem_cons.mp ht).1

end DiskPrivate

end ComputerMonitor
