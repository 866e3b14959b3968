import ComputerMonitor.CPUMonitor

/-! How far `CalcCPUUsage` gets the true usage from counters that have wrapped. -/

namespace ComputerMonitor

open Bytes Scan Stdio

/-- The counters of a `cpu` line of `/proc/stat` as the kernel keeps them. -/
structure Ticks where
  user : ℕ
  nice : ℕ
  system : ℕ
  idle : ℕ
  iowait : ℕ
  irq : ℕ
  softirq : ℕ
  user_lt : user < 2 ^ 64
  nice_lt : nice < 2 ^ 64
  system_lt : system < 2 ^ 64
  idle_lt : idle < 2 ^ 64
  iowait_lt : iowait < 2 ^ 64
  irq_lt : irq < 2 ^ 64
  softirq_lt : softirq < 2 ^ 64

namespace Ticks

def counters (t : Ticks) : List ℕ :=
  [t.user, t.nice, t.system, t.idle, t.iowait, t.irq, t.softirq]

def total (t : Ticks) : ℕ :=
  t.user + t.nice + t.system + t.idle + t.iowait + t.irq + t.softirq

theorem counters_lt (t : Ticks) : ∀ n ∈ t.counters, n < 2 ^ 64 := by
  simp only [counters, List.forall_mem_cons, List.not_mem_nil, false_implies, implies_true]
  exact ⟨t.user_lt, t.nice_lt, t.system_lt, t.idle_lt, t.iowait_lt, t.irq_lt, t.softirq_lt,
    trivial⟩

/-- The first line of `/proc/stat` and whatever follows its seventh counter. -/
def statText (t : Ticks) (rest : Bytes) : Bytes := ascii "cpu " ++ numbers t.counters ++ rest

/-- The counters modulo `2 ^ 32`. -/
def info (t : Ticks) : CPUInfo where
  name := ⟨ascii "cpu", by decide, by decide⟩
  user := UInt32.ofNat t.user
  nice := UInt32.ofNat t.nice
  system := UInt32.ofNat t.system
  idle := UInt32.ofNat t.idle
  iowait := UInt32.ofNat t.iowait
  irq := UInt32.ofNat t.irq
  softirq := UInt32.ofNat t.softirq

/-- The head of the line holds only letters, digits and blanks. -/
theorem head_bytes (t : Ticks) :
    ∀ b ∈ ascii "cpu " ++ numbers t.counters, b ∈ ascii "cpu " ∨ isDigit b = true := by
  intro b hb
  rcases List.mem_append.mp hb with hb | hb
  · exact .inl hb
  · obtain ⟨n, -, hn⟩ := List.mem_flatMap.mp hb
    rcases List.mem_cons.mp hn with rfl | hn
    · exact .inl (by decide)
    · exact .inr (decimal_digits n b hn)

theorem newline_notMem_head (t : Ticks) : newline ∉ ascii "cpu " ++ numbers t.counters := by
  intro h
  exact absurd (t.head_bytes _ h) (by decide)

theorem zero_notMem_head (t : Ticks) : 0 ∉ ascii "cpu " ++ numbers t.counters := by
  intro h
  exact absurd (t.head_bytes _ h) (by decide)

theorem length_numbers_le {ns : List ℕ} (h : ∀ n ∈ ns, n < 2 ^ 64) :
    (numbers ns).length ≤ 21 * ns.length := by
  induction ns with
  | nil => simp [numbers]
  | cons n ns ih =>
    have hn : (decimal n).length ≤ 20 :=
      length_decimal_le (by decide) ((h n (by simp)).trans (by norm_num))
    have := ih fun m hm => h m (by simp [hm])
    simp only [numbers_cons, List.cons_append, List.length_cons, List.length_append]
    omega

theorem length_head_lt (t : Ticks) : (ascii "cpu " ++ numbers t.counters).length < 255 := by
  have h := length_numbers_le t.counters_lt
  have hc : t.counters.length = 7 := rfl
  have ha : (ascii "cpu ").length = 4 := rfl
  rw [List.length_append]
  omega

theorem scan_head (t : Ticks) {rest : Bytes} (hrest : Stops isDigit rest) :
    scan [.word, .uint, .uint, .uint, .uint, .uint, .uint, .uint]
        (ascii "cpu " ++ numbers t.counters ++ rest) =
      (.word (ascii "cpu") :: t.counters.map fun n => .uint (UInt32.ofNat n), rest) := by
  have hcpu : ascii "cpu " ++ numbers t.counters ++ rest =
      [] ++ (ascii "cpu" ++ ([0x20] ++ (numbers t.counters ++ rest))) := by
    simp [show ascii "cpu " = ascii "cpu" ++ [0x20] by decide]
  have hread : Conv.word.read ([] ++ (ascii "cpu" ++ ([0x20] ++ (numbers t.counters ++ rest)))) =
      some ([.word (ascii "cpu")], [0x20] ++ (numbers t.counters ++ rest)) :=
    read_word (by simp) (by decide) (by decide) (by simp [isSpace])
  have hpad : Blank [0x20] := by decide
  have huints := scan_uints t.counters_lt hpad (by simp [counters]) hrest
  rw [hcpu, scan_cons hread]
  exact congrArg (fun p => ([Item.word (ascii "cpu")] ++ p.1, p.2)) huints

/-- `%u` keeps each counter modulo `2 ^ 32`, whatever follows the seventh on the line. -/
theorem getCPUInfo_statText (t : Ticks) {rest : Bytes} (hrest : Stops isDigit rest) :
    CPUPrivate.getCPUInfo (.ofText (t.statText rest)) = some t.info := by
  have hlt := t.length_head_lt
  have hne : t.statText rest ≠ [] := by simp [statText, ascii]
  obtain ⟨fp, hfp⟩ := fgets_text hne (show 1 < 256 by decide) false
  have hline : (getline 255 (t.statText rest)).1 = ascii "cpu " ++ numbers t.counters ++
      (getline (255 - (ascii "cpu " ++ numbers t.counters).length) rest).1 := by
    rw [statText, getline_run t.newline_notMem_head hlt.le]
  have hstop : Stops isDigit
      (cstr (getline (255 - (ascii "cpu " ++ numbers t.counters).length) rest).1) :=
    hrest.of_prefix ((prefix_cstr _).trans ⟨_, getline_append _ _⟩)
  rw [CPUPrivate.getCPUInfo, Stream.ofText, hfp]
  simp only [hline, sscanf, if_true, cstr_append t.zero_notMem_head, t.scan_head hstop]
  rfl

/-- The seven-term sum wraps to the true total modulo `2 ^ 32`. -/
theorem toNat_sum_info (t : Ticks) :
    (t.info.user + t.info.nice + t.info.system + t.info.idle + t.info.iowait + t.info.irq +
      t.info.softirq).toNat = t.total % 2 ^ 32 := by
  simp only [info, UInt32.toNat_add, UInt32.toNat_ofNat', total]
  omega

/-- No counter goes down from `old` to `new`. -/
structure Grows (old new : Ticks) : Prop where
  user : old.user ≤ new.user
  nice : old.nice ≤ new.nice
  system : old.system ≤ new.system
  idle : old.idle ≤ new.idle
  iowait : old.iowait ≤ new.iowait
  irq : old.irq ≤ new.irq
  softirq : old.softirq ≤ new.softirq

/-- The increase of all seven counters together. -/
def elapsed (old new : Ticks) : ℕ := new.total - old.total

/-- The share of the elapsed ticks that were not idle. -/
def usage (old new : Ticks) : ℚ := 1 - ((new.idle - old.idle : ℕ) : ℚ) / elapsed old new

theorem Grows.idle_le_elapsed {old new : Ticks} (h : Grows old new) :
    new.idle - old.idle ≤ elapsed old new := by
  obtain ⟨h1, h2, h3, h4, h5, h6, h7⟩ := h
  simp only [elapsed, total]
  omega

/-- The idle counters are subtracted before they are converted, so their wraps cancel. -/
theorem toNat_idle_info {old new : Ticks} (h : Grows old new) (hlt : elapsed old new < 2 ^ 32) :
    (new.info.idle - old.info.idle).toNat = new.idle - old.idle := by
  have hle := h.idle_le_elapsed
  have hidle := h.idle
  simp only [info, UInt32.toNat_sub, UInt32.toNat_ofNat']
  omega

theorem usage_mem {old new : Ticks} (h : Grows old new) :
    0 ≤ usage old new ∧ usage old new ≤ 1 := by
  have hle : ((new.idle - old.idle : ℕ) : ℚ) ≤ elapsed old new := by
    exact_mod_cast h.idle_le_elapsed
  have hdiv : ((new.idle - old.idle : ℕ) : ℚ) / elapsed old new ≤ 1 :=
    div_le_one_of_le₀ hle (by positivity)
  have hpos : 0 ≤ ((new.idle - old.idle : ℕ) : ℚ) / elapsed old new := by positivity
  constructor <;> simp only [usage] <;> linarith

end Ticks

namespace CPUPrivate

/-- What is computed from two records, in terms of the true counters: the sums are subtracted after
their conversion, so the divisor is the difference of two wrapped totals. -/
theorem calcCPUUsage_info {old new : Ticks} (h : old.Grows new)
    (hlt : Ticks.elapsed old new < 2 ^ 32)
    {s : ℚ} (hs : ((new.total % 2 ^ 32 : ℕ) : ℚ) - (old.total % 2 ^ 32 : ℕ) = s) (hne : s ≠ 0) :
    calcCPUUsage old.info new.info =
      .finite (max 0 (1 - ((new.idle - old.idle : ℕ) : ℚ) / s)) := by
  simp only [calcCPUUsage, Ticks.toNat_sum_info, Ticks.toNat_idle_info h hlt, Double.natCast_def,
    Double.finite_sub, hs, Double.finite_div _ hne, Double.one_def, Double.zero_def,
    Double.lt_finite, decide_eq_true_eq]
  split
  · rw [max_eq_right (by linarith)]
  · rw [max_eq_left (by linarith)]

/-- The wrapped sum has not passed `2 ^ 32` between the two snapshots. -/
def SumKept (old new : Ticks) : Prop := old.total % 2 ^ 32 + Ticks.elapsed old new < 2 ^ 32

instance (old new : Ticks) : Decidable (SumKept old new) :=
  inferInstanceAs (Decidable (_ < _))

theorem calcCPUUsage_of_sumKept {old new : Ticks} (h : old.Grows new)
    (hpos : 0 < Ticks.elapsed old new) (hlt : Ticks.elapsed old new < 2 ^ 32)
    (hsum : SumKept old new) :
    calcCPUUsage old.info new.info = .finite (Ticks.usage old new) := by
  have hs : ((new.total % 2 ^ 32 : ℕ) : ℚ) - (old.total % 2 ^ 32 : ℕ) = Ticks.elapsed old new := by
    have : new.total % 2 ^ 32 = old.total % 2 ^ 32 + Ticks.elapsed old new := by
      simp only [SumKept, Ticks.elapsed] at *
      omega
    rw [this]
    push_cast
    ring
  have hne : (Ticks.elapsed old new : ℚ) ≠ 0 := by exact_mod_cast hpos.ne'
  rw [calcCPUUsage_info h hlt hs hne, ← Ticks.usage, max_eq_right (Ticks.usage_mem h).1]

/-- Once the sum has wrapped, the divisor is negative and the idle share is added instead. -/
theorem calcCPUUsage_of_wrapped {old new : Ticks} (h : old.Grows new)
    (hpos : 0 < Ticks.elapsed old new) (hlt : Ticks.elapsed old new < 2 ^ 32)
    (hsum : ¬SumKept old new) :
    calcCPUUsage old.info new.info =
      .finite (1 + ((new.idle - old.idle : ℕ) : ℚ) / (2 ^ 32 - Ticks.elapsed old new)) := by
  have hs : ((new.total % 2 ^ 32 : ℕ) : ℚ) - (old.total % 2 ^ 32 : ℕ) =
      -(2 ^ 32 - Ticks.elapsed old new) := by
    have : new.total % 2 ^ 32 + 2 ^ 32 = old.total % 2 ^ 32 + Ticks.elapsed old new := by
      simp only [SumKept, Ticks.elapsed] at *
      omega
    have hq : ((new.total % 2 ^ 32 : ℕ) : ℚ) + 2 ^ 32 =
        (old.total % 2 ^ 32 : ℕ) + Ticks.elapsed old new := by exact_mod_cast this
    linarith
  have hgap : (0 : ℚ) < 2 ^ 32 - Ticks.elapsed old new := by
    rw [sub_pos]
    exact_mod_cast hlt
  have hshare : 0 ≤ ((new.idle - old.idle : ℕ) : ℚ) / (2 ^ 32 - Ticks.elapsed old new) := by
    positivity
  rw [calcCPUUsage_info h hlt hs (by linarith), div_neg, sub_neg_eq_add,
    max_eq_right (by linarith)]

/-- The usage computed from two `cpu` lines is the true one exactly as long as the wrapped sum of
the counters has not passed `2 ^ 32` in between, or the processor was never idle. -/
theorem calcCPUUsage_eq_usage_iff (old new : Ticks) {restOld restNew : Bytes}
    (hrestOld : Stops isDigit restOld) (hrestNew : Stops isDigit restNew) (h : old.Grows new)
    (hpos : 0 < Ticks.elapsed old new) (hlt : Ticks.elapsed old new < 2 ^ 32) :
    (∃ oldInfo newInfo, getCPUInfo (.ofText (old.statText restOld)) = some oldInfo ∧
      getCPUInfo (.ofText (new.statText restNew)) = some newInfo ∧
      calcCPUUsage oldInfo newInfo = .finite (Ticks.usage old new) ∧
      0 ≤ Ticks.usage old new ∧ Ticks.usage old new ≤ 1) ↔
    SumKept old new ∨ new.idle = old.idle := by
  simp only [Ticks.getCPUInfo_statText _ hrestOld, Ticks.getCPUInfo_statText _ hrestNew,
    Option.some.injEq, existsAndEq, true_and, Ticks.usage_mem h, and_true]
  by_cases hsum : SumKept old new
  · simp [hsum, calcCPUUsage_of_sumKept h hpos hlt hsum]
  · rw [calcCPUUsage_of_wrapped h hpos hlt hsum, Double.finite.injEq, Ticks.usage]
    simp only [hsum, false_or]
    have hD : (0 : ℚ) < Ticks.elapsed old new := by exact_mod_cast hpos
    have hgap : (0 : ℚ) < 2 ^ 32 - Ticks.elapsed old new := by
      rw [sub_pos]
      exact_mod_cast hlt
    constructor
    · intro heq
      by_contra hidle
      have hI : (0 : ℚ) < ((new.idle - old.idle : ℕ) : ℚ) := by
        have := h.idle
        exact_mod_cast (by omega : 0 < new.idle - old.idle)
      have h1 := div_pos hI hgap
      have h2 := div_pos hI hD
      linarith
    · intro hidle
      simp [hidle]

/-- Two snapshots forty ticks apart, half of them idle, between which the sum passes `2 ^ 32`. -/
def beforeWrap : Ticks :=
  ⟨2 ^ 32 - 30, 0, 0, 0, 0, 0, 0, by decide, by decide, by decide, by decide, by decide, by decide,
    by decide⟩

def afterWrap : Ticks :=
  ⟨2 ^ 32 - 10, 0, 0, 20, 0, 0, 0, by decide, by decide, by decide, by decide, by decide, by decide,
    by decide⟩

theorem grows_wrap : beforeWrap.Grows afterWrap := by
  constructor <;> decide

theorem calcCPUUsage_eq_usage_iff_wrap :
    (∃ oldInfo newInfo, getCPUInfo (.ofText (beforeWrap.statText [newline])) = some oldInfo ∧
      getCPUInfo (.ofText (afterWrap.statText [newline])) = some newInfo ∧
      calcCPUUsage oldInfo newInfo = .finite (Ticks.usage beforeWrap afterWrap) ∧
      0 ≤ Ticks.usage beforeWrap afterWrap ∧ Ticks.usage beforeWrap afterWrap ≤ 1) ↔
    SumKept beforeWrap afterWrap ∨ afterWrap.idle = beforeWrap.idle :=
  calcCPUUsage_eq_usage_iff beforeWrap afterWrap (by simp [isDigit, newline])
    (by simp [isDigit, newline]) grows_wrap (by decide) (by decide)

/-- With that pair of lines the reported usage is above 1, where the true one is a half. -/
theorem calcCPUUsage_ne_usage_wrap :
    ¬∀ (old new : Ticks) (restOld restNew : Bytes), Stops isDigit restOld → Stops isDigit restNew →
      old.Grows new → 0 < Ticks.elapsed old new → Ticks.elapsed old new < 2 ^ 32 →
      ∃ oldInfo newInfo, getCPUInfo (.ofText (old.statText restOld)) = some oldInfo ∧
        getCPUInfo (.ofText (new.statText restNew)) = some newInfo ∧
        calcCPUUsage oldInfo newInfo = .finite (Ticks.usage old new) ∧
        0 ≤ Ticks.usage old new ∧ Ticks.usage old new ≤ 1 := by
  intro h
  have hrest : Stops isDigit [newline] := by simp [isDigit, newline]
  obtain ⟨oldInfo, newInfo, hold, hnew, husage, -⟩ :=
    h beforeWrap afterWrap _ _ hrest hrest grows_wrap (by decide) (by decide)
  rw [Ticks.getCPUInfo_statText _ hrest, Option.some.injEq] at hold hnew
  subst hold hnew
  rw [calcCPUUsage_of_wrapped grows_wrap (by decide) (by decide) (by decide)] at husage
  revert husage
  decide +kernel

end CPUPrivate

end ComputerMonitor
