import PolishCalc.Proofs.Calculation.Outcome
import PolishCalc.Proofs.Evaluation.Inside

/-!
# Failing like the placeholder

A text that cannot be read fails as the placeholder does, but texts that can be
read may fail in the same way. An error without a context lies at the root of
what was evaluated (`Expr.headOperator_of_evaluateWithin_error`), so these are
exactly the texts of the placeholder itself and of forms that it heads
(`calculate_eq_unreadable_iff`).
-/

namespace PolishCalc

/-- The error for the placeholder. -/
def EvalError.unreadable : EvalError where
  kind := .unknownOperator
  message := "unknown operator ERROR"
  context := none

/-- The expression is the placeholder or a form that the placeholder heads. -/
def Expr.ShowsPlaceholder (e : Expr) : Prop :=
  e = .leaf "ERROR" ∨ ∃ operands, e = .form (.leaf "ERROR") operands

theorem EvalError.differs_of_ne_unreadable {error : EvalError} (h : error ≠ .unreadable) :
    error.kind ≠ .unknownOperator ∨ error.message ≠ "unknown operator ERROR" ∨
      error.context ≠ none := by
  by_contra same
  simp only [ne_eq, not_or, not_not] at same
  obtain ⟨kind, message, context⟩ := error
  obtain ⟨rfl, rfl, rfl⟩ := same
  exact h rfl

namespace Expr

/-! ## Errors at the root -/

/-- Only forms start with an opening parenthesis. -/
theorem render_eq_iff {e : Expr} {text : String} (h : text.toList.head? ≠ some '(') :
    e.render = text ↔ e = .leaf text := by
  cases e with
  | leaf own => simp [render]
  | form head operands =>
    constructor
    · rintro rfl
      simp [render] at h
    · intro same
      cases same

theorem headOperator_eq_unreadable_iff {head : Expr} :
    headOperator head = .error .unreadable ↔ head = .leaf "ERROR" := by
  constructor
  · intro h
    have said : "unknown operator " ++ "ERROR" = "unknown operator " ++ head.render :=
      congrArg EvalError.message (eq_of_headOperator_error h)
    exact (render_eq_iff (by decide)).mp ((String.append_right_inj _).mp said).symm
  · rintro rfl
    decide

variable {limit : Nat} {error : EvalError}

/-- A form that fails without a context has no operator. -/
theorem headOperator_of_evaluateWithin_error {head : Expr} {operands : Operands}
    (positive : 0 < limit) (h : (form head operands).evaluateWithin limit = .error error)
    (outside : error.context = none) : headOperator head = .error error := by
  rw [evaluateWithin_form] at h
  rcases (evaluateAt_form_eq_error_iff positive).mp h with unknown | ⟨_, inner, -, -, rfl⟩
  · exact unknown
  · exact absurd outside (inner.context_inContext_ne_none _)

theorem evaluateWithin_eq_unreadable_iff (positive : 0 < limit) {e : Expr} :
    e.evaluateWithin limit = .error .unreadable ↔ e.ShowsPlaceholder := by
  constructor
  · intro h
    cases e with
    | leaf text =>
      by_cases placeholder : text = "ERROR"
      · exact .inl (congrArg leaf placeholder)
      · have other : (leaf text).isPlaceholder = false := by
          simpa [isPlaceholder, Expr.placeholder] using placeholder
        rw [evaluateWithin, other, if_neg Bool.false_ne_true, evaluateAt, if_pos positive] at h
        exact absurd (kind_of_leafValue_error h) (by decide)
    | form head operands =>
      have unknown := headOperator_of_evaluateWithin_error positive h rfl
      exact .inr ⟨operands, congrArg (form · operands) (headOperator_eq_unreadable_iff.mp unknown)⟩
  · rintro (rfl | ⟨operands, rfl⟩)
    · exact evaluateWithin_placeholder limit
    · rw [evaluateWithin_form, evaluateAt_form_eq_error_iff positive]
      exact .inl (headOperator_eq_unreadable_iff.mpr rfl)

/-! ## Placeholders inside -/

theorem value?_eq_none_of_showsPlaceholder {e : Expr} (h : e.ShowsPlaceholder) :
    e.value? = none := by
  rcases h with rfl | ⟨operands, rfl⟩
  · exact value?_placeholder
  · rw [Option.eq_none_iff_forall_ne_some]
    intro v found
    obtain ⟨operator, _, spelled, -⟩ := value?_form_eq_some_iff.mp found
    cases operator <;> exact absurd spelled (by decide)

end Expr

/-- What has no value takes the value of all that it is an operand in. -/
theorem Expr.Reaches.value?_eq_none {e x : Expr} (h : e.Reaches x) (missing : x.value? = none) :
    e.value? = none := by
  rw [Option.eq_none_iff_forall_ne_some]
  intro v found
  obtain ⟨w, foundInside⟩ := h.exists_value? found
  rw [missing] at foundInside
  cases foundInside

/-! ## Calculation -/

theorem calculate_eq_unreadable_iff {text : String} :
    calculate text = .error .unreadable ↔
      (∃ error, Expr.read Expr.defaultMaxDepth text = .error error) ∨
        ∃ e, Expr.read Expr.defaultMaxDepth text = .ok e ∧ e.ShowsPlaceholder := by
  cases result : Expr.read Expr.defaultMaxDepth text with
  | ok e =>
    rw [calculate_of_read result, Expr.evaluate, Expr.evaluateWithin_eq_unreadable_iff (by decide)]
    simp
  | error error =>
    rw [calculate_of_read_error result]
    simp
    rfl

theorem calculate_ne_unreadable {text : String} {e : Expr}
    (accepted : Expr.read Expr.defaultMaxDepth text = .ok e) (clear : ¬ e.ShowsPlaceholder) :
    calculate text ≠ .error .unreadable := by
  intro failed
  rw [calculate_of_read accepted] at failed
  exact clear ((Expr.evaluateWithin_eq_unreadable_iff (by decide)).mp failed)

/-- A placeholder that is evaluated makes the whole fail, and no other head than that of the whole
can be to blame without a context. -/
theorem exists_error_of_reaches {text : String} {e inside : Expr}
    (accepted : Expr.read Expr.defaultMaxDepth text = .ok e) (clear : ¬ e.ShowsPlaceholder)
    (reached : e.Reaches inside) (shown : inside.ShowsPlaceholder) :
    ∃ error, calculate text = .error error ∧ (error.context = none →
      ∃ head operands, e = .form head operands ∧ error = .unknownOperator head.render) := by
  have missing := reached.value?_eq_none (Expr.value?_eq_none_of_showsPlaceholder shown)
  rw [calculate_of_read accepted]
  cases result : e.evaluate with
  | ok v =>
    obtain ⟨-, found⟩ := Expr.evaluateWithin_eq_ok_iff.mp result
    rw [missing] at found
    cases found
  | error error =>
    refine ⟨error, rfl, fun outside => ?_⟩
    cases e with
    | leaf own =>
      cases reached
      exact absurd shown clear
    | form head operands =>
      have unknown := Expr.headOperator_of_evaluateWithin_error (by decide) result outside
      exact ⟨head, operands, rfl, Expr.eq_of_headOperator_error unknown⟩

/-- The failure of the placeholder is that of the texts that cannot be read, and of those that are
read as the placeholder or as a form that it heads. All others have a value or fail in another way,
also if a placeholder inside them is what fails. -/
theorem calculate_unreadable (text : String) :
    (calculate text = .error .unreadable ↔
      (∃ error, Expr.read 32 text = .error error) ∨ Expr.read 32 text = .ok (.leaf "ERROR") ∨
        ∃ operands, Expr.read 32 text = .ok (.form (.leaf "ERROR") operands)) ∧
    ∀ e, Expr.read 32 text = .ok e → ¬ e.ShowsPlaceholder →
      ((∃ v, calculate text = .ok v) ∨ ∃ error, calculate text = .error error ∧
        (error.kind ≠ .unknownOperator ∨ error.message ≠ "unknown operator ERROR" ∨
          error.context ≠ none)) ∧
      ∀ inside, e.Reaches inside → inside.ShowsPlaceholder →
        ∃ error, calculate text = .error error ∧ error ≠ .unreadable ∧
          (error.context = none →
            ∃ head operands, e = .form head operands ∧ error = .unknownOperator head.render) := by
  refine ⟨calculate_eq_unreadable_iff.trans (or_congr_right ⟨?_, ?_⟩),
    fun e accepted clear => ⟨?_, fun inside reached shown => ?_⟩⟩
  · rintro ⟨e, accepted, rfl | ⟨operands, rfl⟩⟩
    · exact .inl accepted
    · exact .inr ⟨operands, accepted⟩
  · rintro (accepted | ⟨operands, accepted⟩)
    · exact ⟨_, accepted, .inl rfl⟩
    · exact ⟨_, accepted, .inr ⟨operands, rfl⟩⟩
  · have other := calculate_ne_unreadable accepted clear
    cases result : calculate text with
    | ok v => exact .inl ⟨v, rfl⟩
    | error error =>
      rw [result] at other
      exact .inr ⟨error, rfl, EvalError.differs_of_ne_unreadable fun same => other (same ▸ rfl)⟩
  · obtain ⟨error, failed, outside⟩ := exists_error_of_reaches accepted clear reached shown
    have other : error ≠ .unreadable := fun same =>
      calculate_ne_unreadable accepted clear (same ▸ failed)
    exact ⟨error, failed, other, outside⟩

/-- Inside another form, one that the placeholder heads fails with a context. -/
theorem calculate_unreadable_inside :
    let text := "(+ 1 (ERROR 2 3))"
    let inside : Expr := .form (.leaf "ERROR") (.two (.leaf "2") (.leaf "3"))
    let e : Expr := .form (.leaf "+") (.two (.leaf "1") inside)
    Expr.read 32 text = .ok e ∧ ¬ e.ShowsPlaceholder ∧ e.Reaches inside ∧
      inside.ShowsPlaceholder ∧ calculate "(ERROR 2 3)" = .error .unreadable ∧
      ∃ error, calculate text = .error error ∧ error ≠ .unreadable := by
  intro text inside e
  have accepted : Expr.read 32 text = .ok e := by decide
  have clear : ¬ e.ShowsPlaceholder := by simp [e, Expr.ShowsPlaceholder]
  have reached : e.Reaches inside := .operand (by simp [Operands.toList]) (.refl inside)
  have shown : inside.ShowsPlaceholder := .inr ⟨_, rfl⟩
  have alone : Expr.read 32 "(ERROR 2 3)" = .ok inside := by decide
  obtain ⟨error, failed, differs, -⟩ :=
    ((calculate_unreadable text).2 e accepted clear).2 inside reached shown
  exact ⟨accepted, clear, reached, shown,
    (calculate_unreadable "(ERROR 2 3)").1.mpr (.inr (.inr ⟨_, alone⟩)), error, failed, differs⟩

end PolishCalc
