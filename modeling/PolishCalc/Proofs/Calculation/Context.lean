import PolishCalc.Proofs.Calculation.Depth
import PolishCalc.Proofs.Reading.Rendering

/-!
# The context of an error

The context of an evaluation error is the text of a form that operand positions
lead to and that fails with the very same error
(`Expr.exists_form_of_evaluateWithin_error`). As the text of a form that was
read is read back, calculating with the context alone gives the error once more
(`context_reproduces_error`).
-/

namespace PolishCalc

open Token (Clean tokenize)

/-! ## The form to blame -/

theorem Expr.Reaches.leaves_subset {e x : Expr} (h : e.Reaches x) : x.leaves ⊆ e.leaves := by
  induction h with
  | refl => exact List.Subset.refl _
  | operand mem _ ih =>
    intro text ht
    rw [leaves, Operands.leaves_eq_flatMap]
    exact List.mem_append_right _ (List.mem_flatMap_of_mem mem (ih ht))

namespace Expr

variable {limit : Nat} {error : EvalError} {context : String}

/-- The form is evaluated at a level of its own. -/
theorem exists_form_of_evaluateAt_error (e : Expr) {level : Nat}
    (h : e.evaluateAt limit level = .error error) (inside : error.context = some context) :
    ∃ head operands inner, e.Reaches (form head operands) ∧
      (form head operands).render = context ∧
      (form head operands).evaluateAt limit inner = .error error := by
  induction e using Expr.induction generalizing level error with
  | leaf text =>
    rw [evaluateAt] at h
    split at h
    · rw [eq_of_leafValue_error h] at inside
      cases inside
    · obtain rfl := Except.error.inj h
      cases inside
  | form head operands _ ih =>
    by_cases below : level < limit
    · rcases (evaluateAt_form_eq_error_iff below).mp h with unknown | ⟨_, fault, -, failed, rfl⟩
      · rw [eq_of_headOperator_error unknown] at inside
        cases inside
      · obtain ⟨x, mem, failed⟩ := Operands.exists_mem_of_evaluateAt_error failed
        -- Only a fault that lies in no form yet gets this form as its context.
        cases outside : fault.context with
        | none =>
          have here : (form head operands).render = context := by
            simpa [EvalError.inContext, outside] using inside
          exact ⟨head, operands, level, .refl _, here, h⟩
        | some _ =>
          have kept : fault.inContext (form head operands) = fault := by
            simp [EvalError.inContext, outside]
          rw [kept] at inside ⊢
          obtain ⟨head', operands', inner, reached, rendered, again⟩ := ih x mem failed inside
          exact ⟨head', operands', inner, .operand mem reached, rendered, again⟩
    · rw [evaluateAt, if_neg below] at h
      obtain rfl := Except.error.inj h
      cases inside

theorem exists_form_of_evaluateWithin_error {e : Expr} (fits : e.depth < limit)
    (h : e.evaluateWithin limit = .error error) (inside : error.context = some context) :
    ∃ head operands, e.Reaches (form head operands) ∧ (form head operands).render = context ∧
      (form head operands).evaluateWithin limit = .error error := by
  have notDepth : error.kind ≠ .depthExceeded := withinLimit_evaluateWithin fits error h
  unfold evaluateWithin at h
  split at h
  · obtain rfl := Except.error.inj h
    cases inside
  · obtain ⟨head, operands, level, reached, rendered, failed⟩ :=
      exists_form_of_evaluateAt_error e h inside
    have atLevel : WithinLimit ((form head operands).evaluateAt limit level) := by
      intro other same
      rw [failed] at same
      exact Except.error.inj same ▸ notDepth
    refine ⟨head, operands, reached, rendered, ?_⟩
    rw [evaluateWithin_form, evaluateAt_eq_of_room _ (by omega) atLevel, failed]

/-- The text of what an expression that was read reaches is read back. -/
theorem read_render_of_reaches {maxDepth : UInt64} {text : String} {e x : Expr}
    (h : read maxDepth text = .ok e) (reached : e.Reaches x) : read maxDepth x.render = .ok x := by
  have clean : ∀ leaf ∈ x.leaves, Clean leaf := fun leaf hl =>
    clean_leaves_of_read h leaf (reached.leaves_subset hl)
  exact read_render clean (Nat.le_trans reached.depth_le (ofTokens_sound h).1)

end Expr

/-! ## Calculating with the context -/

/-- The context of an error is read as a form that is reached from what failed through operands
alone, and the form fails with the same error. So calculating with the context gives what
calculating with the whole text gives. -/
theorem context_reproduces_error :
    (∀ {maxDepth : UInt64} {text context : String} {e : Expr} {error : EvalError},
      (tokenize text).length < 2 ^ 63 → Expr.read maxDepth text = .ok e →
      e.evaluateFor maxDepth = .error error → error.context = some context →
      ∃ head operands, e.Reaches (.form head operands) ∧
        Expr.read maxDepth context = .ok (.form head operands) ∧
        (Expr.form head operands).evaluateFor maxDepth = .error error) ∧
    ∀ {text context : String} {error : EvalError}, calculate text = .error error →
      error.context = some context → calculate context = calculate text := by
  constructor
  · intro maxDepth text context e error few accepted failed inside
    have fits := Expr.depth_lt_limitFor_of_read few accepted
    obtain ⟨head, operands, reached, rfl, again⟩ :=
      Expr.exists_form_of_evaluateWithin_error fits failed inside
    exact ⟨head, operands, reached, Expr.read_render_of_reaches accepted reached, again⟩
  · intro text context error failed inside
    cases accepted : Expr.read Expr.defaultMaxDepth text with
    | ok e =>
      rw [calculate_of_read accepted] at failed ⊢
      have fits : e.depth < Expr.defaultLimit :=
        Nat.lt_of_le_of_lt (Expr.ofTokens_sound accepted).1 (by decide)
      obtain ⟨head, operands, reached, rfl, again⟩ :=
        Expr.exists_form_of_evaluateWithin_error fits failed inside
      rw [calculate_of_read (Expr.read_render_of_reaches accepted reached), failed]
      exact again
    | error syntaxError =>
      rw [calculate_of_read_error accepted] at failed
      obtain rfl := Except.error.inj failed
      cases inside

/-- The context of a fault in a form within a form is that of the inner one. -/
theorem context_reproduces_error_nested :
    let text := "(* 2 (+ 1 (% 3 4)) x)"
    let context := "(+ 1 (% 3 4))"
    let error : EvalError := {
      kind := .unknownOperator
      message := "unknown operator %"
      context := some context }
    calculate text = .error error ∧ calculate context = calculate text ∧
      ∃ head operands, Expr.read 3 context = .ok (.form head operands) ∧
        (Expr.form head operands).evaluateFor 3 = .error error := by
  intro text context error
  let inner : Expr := .form (.leaf "%") (.two (.leaf "3") (.leaf "4"))
  let e : Expr := .form (.leaf "*")
    (.more (.leaf "2") (.two (.form (.leaf "+") (.two (.leaf "1") inner)) (.leaf "x")))
  have few : (tokenize text).length < 2 ^ 63 := by decide
  have accepted : Expr.read 3 text = .ok e := by decide
  have evaluated : e.evaluateFor 3 = .error error := by decide
  have read : Expr.read Expr.defaultMaxDepth text = .ok e := by decide
  have failed : calculate text = .error error := (calculate_of_read read).trans (by decide)
  obtain ⟨head, operands, -, again⟩ := context_reproduces_error.1 few accepted evaluated rfl
  exact ⟨failed, context_reproduces_error.2 failed rfl, head, operands, again⟩

end PolishCalc
