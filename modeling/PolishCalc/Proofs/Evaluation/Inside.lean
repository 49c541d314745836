import PolishCalc.Proofs.Evaluation.Value
import PolishCalc.Proofs.Expr.Reach

/-!
# Values inside expressions

An expression with a value has heads that are leaves, so each form inside it is
reached through operand positions alone (`Expr.Contains.reaches`), and all that
is reached has a value too (`Expr.Reaches.exists_value?`). Evaluated on its own,
it comes to that value under the same limit
(`Expr.Reaches.exists_evaluateWithin`).
-/

namespace PolishCalc

namespace Operands

/-- The value of an operand stands among the values of the operands. -/
theorem mem_values {operands : Operands} {values : List Binary32} {x : Expr} {v : Binary32}
    (h : operands.values? = some values) (mem : x ∈ operands.toList) (found : x.value? = some v) :
    v ∈ values := by
  cases operands with
  | two first second =>
    obtain ⟨y, z, foundFirst, foundSecond, rfl⟩ := values?_two_eq_some_iff.mp h
    simp only [toList, List.mem_cons, List.not_mem_nil, or_false] at mem
    rcases mem with rfl | rfl
    · simp [Option.some.inj (found.symm.trans foundFirst)]
    · simp [Option.some.inj (found.symm.trans foundSecond)]
  | more first rest =>
    obtain ⟨y, ys, foundFirst, foundRest, rfl⟩ := values?_more_eq_some_iff.mp h
    rcases List.mem_cons.mp mem with rfl | later
    · simp [Option.some.inj (found.symm.trans foundFirst)]
    · exact List.mem_cons_of_mem _ (mem_values foundRest later found)

/-- After the first operand come the values after the first one. -/
theorem exists_values_cons {operands : Operands} {values : List Binary32}
    (h : operands.values? = some values) :
    ∃ first rest, values = first :: rest ∧ ∀ x ∈ operands.toList.tail, ∀ v,
      x.value? = some v → v ∈ rest := by
  cases operands with
  | two first second =>
    obtain ⟨y, z, -, foundSecond, rfl⟩ := values?_two_eq_some_iff.mp h
    refine ⟨y, [z], rfl, fun x mem v found => ?_⟩
    obtain rfl : x = second := by simpa [toList] using mem
    simp [Option.some.inj (found.symm.trans foundSecond)]
  | more first rest =>
    obtain ⟨y, ys, -, foundRest, rfl⟩ := values?_more_eq_some_iff.mp h
    exact ⟨y, ys, rfl, fun x mem v found => mem_values foundRest mem found⟩

end Operands

namespace Expr

variable {e x : Expr} {v : Binary32}

/-- An operand of what has a value has one. -/
theorem exists_value?_of_mem {head : Expr} {operands : Operands}
    (h : (form head operands).value? = some v) (mem : x ∈ operands.toList) :
    ∃ w, x.value? = some w := by
  obtain ⟨_, values, -, found, -⟩ := value?_form_eq_some_iff.mp h
  exact operands.exists_values?_iff.mp ⟨values, found⟩ x mem

theorem Contains.reaches {head : Expr} {operands : Operands}
    (h : e.Contains (form head operands)) (found : e.value? = some v) :
    e.Reaches (form head operands) := by
  generalize same : form head operands = inside at h
  induction h generalizing v with
  | refl => exact .refl _
  | @child outer x y mem inner ih =>
    cases outer with
    | leaf text => cases mem
    | form outerHead outerOperands =>
      rcases List.mem_cons.mp mem with rfl | operand
      · -- The head of a form with a value is a leaf, and a leaf contains no form.
        obtain ⟨operator, _, rfl, -⟩ := value?_form_eq_some_iff.mp found
        cases inner with
        | refl => cases same
        | child mem _ => cases mem
      · obtain ⟨w, foundInside⟩ := exists_value?_of_mem found operand
        exact .operand operand (ih foundInside same)

theorem Reaches.exists_value? (h : e.Reaches x) (found : e.value? = some v) :
    ∃ w, x.value? = some w := by
  induction h generalizing v with
  | refl => exact ⟨v, found⟩
  | operand mem _ ih =>
    obtain ⟨w, foundInside⟩ := exists_value?_of_mem found mem
    exact ih foundInside

/-- What is reached in an expression that evaluates evaluates under the same limit. -/
theorem Reaches.exists_evaluateWithin {limit : Nat} (h : e.Reaches x)
    (evaluated : e.evaluateWithin limit = .ok v) :
    ∃ w, x.evaluateWithin limit = .ok w ∧ x.value? = some w := by
  obtain ⟨fits, found⟩ := evaluateWithin_eq_ok_iff.mp evaluated
  obtain ⟨w, foundInside⟩ := h.exists_value? found
  have fitsInside : x.depth < limit := Nat.lt_of_le_of_lt h.depth_le fits
  exact ⟨w, evaluateWithin_eq_ok_iff.mpr ⟨fitsInside, foundInside⟩, foundInside⟩

end Expr

end PolishCalc
