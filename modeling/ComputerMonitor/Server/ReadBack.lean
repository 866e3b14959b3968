import ComputerMonitor.Server.Cache
import ComputerMonitor.Support.Printable

/-! What the answers of whole runs say to a reader of JSON. -/

namespace ComputerMonitor

open Bytes

namespace Server

variable {κ : Type*} {fmt : Json.FloatFormat} {spec : κ → ClientSpec}

theorem answers_unknown {served : List (κ × Bytes)} {d d' : Desk}
    (h : answers fmt (served.map fun p => (spec p.1).text) d = some (served.map (·.2), d')) :
    ∀ p ∈ served, dispatch (spec p.1).text = none → p.2 = invalidRequest := by
  induction served generalizing d with
  | nil => simp
  | cons p served ih =>
    simp only [List.map_cons, answers, Option.bind_eq_bind, Option.bind_eq_some_iff,
      Option.pure_def, Option.some.injEq, Prod.mk.injEq, List.cons.injEq] at h
    obtain ⟨⟨data, e⟩, hdata, ⟨rest, e'⟩, hrest, ⟨rfl, rfl⟩, rfl⟩ := h
    rintro q hq hnone
    rcases List.mem_cons.mp hq with rfl | hq
    · simp only [answer, hnone, Option.some.injEq, Prod.mk.injEq] at hdata
      exact hdata.1.symm
    · exact ih hrest q hq hnone

/-- The text for unknown requests is no JSON. -/
theorem ofText_invalidRequest : JsonTree.ofText invalidRequest = none := by
  have hscalar : JsonTree.readValue (invalidRequest.length + 1) invalidRequest = none :=
    (JsonTree.readValue_scalar (by decide) (by decide) (by decide) _).trans
      (JsonTree.readScalar_of_stops rfl (by decide) (by decide) (by decide) _)
  rw [JsonTree.ofText, hscalar]

theorem numeric_sampleFormat : sampleFormat.Numeric := by
  intro q b hb
  have hpoint := List.all_eq_true.mp (show (ascii ".0").all JsonTree.isNumberByte by decide)
  have hminus := List.all_eq_true.mp (show (ascii "-").all JsonTree.isNumberByte by decide)
  simp only [sampleFormat, List.mem_append] at hb
  rcases hb with (hb | hb) | hb
  · split_ifs at hb
    · exact hminus b hb
    · cases hb
  · exact Json.isNumberByte_of_isDigit (decimal_digits _ b hb)
  · exact hpoint b hb

end Server

end ComputerMonitor
