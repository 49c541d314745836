import Mathlib.Algebra.Group.Nat.Defs
import PolishCalc.Proofs.Calculation.Arithmetic
import PolishCalc.Proofs.Calculation.Outcome
import PolishCalc.Proofs.Evaluation.Limit
import PolishCalc.Proofs.Reading.Nesting

/-!
# The depth of what is calculated

Whatever was read from fewer than 2^63 tokens lies below the limit on levels
that belongs to its `maxDepth` (`Expr.depth_lt_limitFor_of_read`). So no
calculation and no session reports that this limit was exceeded
(`never_depthExceeded`), and a larger `maxDepth` changes an answer only if the
smaller one refused a form (`reply_eq_of_maxDepth_le`).
-/

namespace PolishCalc

open Token (tokenize)

namespace Expr

variable {maxDepth : UInt64} {text : String} {e : Expr}

theorem depth_lt_limitFor_of_read (few : (tokenize text).length < 2 ^ 63)
    (h : read maxDepth text = .ok e) : e.depth < limitFor maxDepth := by
  have counted : e.depth < (tokenize text).length := depth_lt_length_of_ofTokens h
  have size : UInt64.size = 2 ^ 64 := rfl
  exact depth_lt_limitFor (ofTokens_sound h).1 (by omega)

end Expr

namespace Session

variable {session : Session} {text : String}

/-- An evaluation error of a session is that of an expression below the limit. -/
theorem exists_of_calculate_error (few : (tokenize text).length < 2 ^ 63) {error : EvalError}
    (h : session.calculate text = .error (.evaluating error)) :
    ∃ e : Expr, e.depth < Expr.limitFor session.maxDepth ∧
      e.evaluateFor session.maxDepth = .error error := by
  cases accepted : Expr.read session.maxDepth text with
  | ok e =>
    rw [calculate_of_read accepted] at h
    obtain ⟨inner, failed, same⟩ := Except.mapError_eq_error_iff.mp h
    obtain rfl := Failure.evaluating.inj same
    exact ⟨e, Expr.depth_lt_limitFor_of_read few accepted, failed⟩
  | error syntaxError =>
    rw [calculate_of_read_error accepted] at h
    have failure := Except.error.inj h
    split at failure
    · cases failure
    · obtain rfl := Failure.evaluating.inj failure
      have low : Expr.placeholder.depth < Expr.limitFor session.maxDepth :=
        Nat.lt_of_lt_of_le (by decide) (Expr.defaultLimit_le_limitFor _)
      exact ⟨.placeholder, low, Expr.evaluateWithin_placeholder _⟩

theorem kind_of_calculate_error (few : (tokenize text).length < 2 ^ 63) {error : EvalError}
    (h : session.calculate text = .error (.evaluating error)) : error.kind ≠ .depthExceeded := by
  obtain ⟨e, fits, failed⟩ := exists_of_calculate_error few h
  exact Expr.withinLimit_evaluateWithin fits error failed

/-- The line for an excess of depth is not the report of anything a session calculates. -/
theorem report_calculate_ne (few : (tokenize text).length < 2 ^ 63) (limit : Nat) :
    report (session.calculate text) ≠ (Failure.evaluating (.depthExceeded limit)).headline := by
  intro same
  -- Values and syntax errors already differ in the first letter.
  cases result : session.calculate text with
  | ok value =>
    rw [result] at same
    have := congrArg (fun s => s.toList.head?) same
    simp [report] at this
  | error failure =>
    rw [result] at same
    cases failure with
    | reading error =>
      have := congrArg (fun s => s.toList.head?) same
      simp [report] at this
    | evaluating error =>
      have said : error.message = (EvalError.depthExceeded limit).message := by
        simpa [report] using same
      obtain ⟨e, _, failed⟩ := exists_of_calculate_error few result
      have cause := Expr.cause_of_evaluateWithin_error failed
      exact kind_of_calculate_error few result (cause.kind_of_message said)

theorem reply_ne_print_depthExceeded (session : Session) {line : String}
    (few : (tokenize line).length < 2 ^ 63) (limit : Nat) :
    session.reply line ≠ .print (Failure.evaluating (.depthExceeded limit)).headline := by
  rw [← Token.tokenize_trim] at few
  intro said
  simp only [reply] at said
  split at said
  · cases said
  · split at said
    · cases said
    · exact report_calculate_ne few limit (Reply.print.inj said)

end Session

/-- What was read is evaluated without an error about the depth: under the limit for the same
`maxDepth`, under the default limit if at most 63 forms were to be nested, and so in every session
and by default. -/
theorem never_depthExceeded :
    (∀ {maxDepth : UInt64} {text : String} {e : Expr}, (tokenize text).length < 2 ^ 63 →
      Expr.read maxDepth text = .ok e →
        WithinLimit (e.evaluateFor maxDepth) ∧ (maxDepth ≤ 63 → WithinLimit e.evaluate)) ∧
    (∀ (session : Session) {text : String}, (tokenize text).length < 2 ^ 63 →
      (∀ error, session.calculate text = .error (.evaluating error) →
        error.kind ≠ .depthExceeded) ∧
      ∀ limit, session.reply text ≠
        .print (Failure.evaluating (.depthExceeded limit)).headline) ∧
    ∀ text, WithinLimit (calculate text) := by
  refine ⟨fun few accepted => ⟨?_, fun small => ?_⟩, fun session text few => ⟨?_, ?_⟩,
    fun text => ?_⟩
  · exact Expr.withinLimit_evaluateWithin (Expr.depth_lt_limitFor_of_read few accepted)
  · have fits := Nat.le_trans (Expr.ofTokens_sound accepted).1 (UInt64.le_iff_toNat_le.mp small)
    exact Expr.withinLimit_evaluateWithin (Nat.lt_succ_of_le fits)
  · exact fun error => Session.kind_of_calculate_error few
  · exact session.reply_ne_print_depthExceeded few
  · exact Expr.withinLimit_evaluateWithin (depth_readOrPlaceholder_lt text)

/-- An expression with as many nested forms as there may be. -/
theorem never_depthExceeded_at_limit :
    let text := "(+ 1 (* 2 x))"
    let e : Expr := .form (.leaf "+")
      (.two (.leaf "1") (.form (.leaf "*") (.two (.leaf "2") (.leaf "x"))))
    (tokenize text).length < 2 ^ 63 ∧ Expr.read 2 text = .ok e ∧ e.depth = 2 ∧
      WithinLimit (e.evaluateFor 2) ∧ WithinLimit e.evaluate ∧
      ∀ limit, Session.reply { maxDepth := 2 } text ≠
        .print (Failure.evaluating (.depthExceeded limit)).headline := by
  intro text e
  have few : (tokenize text).length < 2 ^ 63 := by decide
  have accepted : Expr.read 2 text = .ok e := by decide
  obtain ⟨evaluated, small⟩ := never_depthExceeded.1 few accepted
  exact ⟨few, accepted, by decide, evaluated, small (by decide),
    (never_depthExceeded.2.1 { maxDepth := 2 } few).2⟩

/-! ## Two limits -/

namespace Session

variable {maxDepth maxDepth' : UInt64} {text line : String}

theorem calculate_eq_of_le (le : maxDepth ≤ maxDepth') (strict : Bool)
    (few : (tokenize text).length < 2 ^ 63) (h : ¬ NestedTooDeeply (Expr.read maxDepth text)) :
    calculate { maxDepth := maxDepth', strict } text = calculate { maxDepth, strict } text := by
  have same : Expr.read maxDepth' text = Expr.read maxDepth text := Expr.ofTokens_eq_of_le le h
  cases accepted : Expr.read maxDepth text with
  | ok e =>
    have fits := Expr.depth_lt_limitFor_of_read few accepted
    have values : e.evaluateFor maxDepth' = e.evaluateFor maxDepth :=
      Expr.evaluateWithin_eq_of_le (Expr.limitFor_mono le) (Expr.withinLimit_evaluateWithin fits)
    rw [calculate_of_read (same.trans accepted), calculate_of_read accepted, values]
  | error error =>
    rw [calculate_of_read_error (same.trans accepted), calculate_of_read_error accepted]

theorem reply_eq_of_le (le : maxDepth ≤ maxDepth') (strict : Bool)
    (few : (tokenize line).length < 2 ^ 63) (h : ¬ NestedTooDeeply (Expr.read maxDepth line)) :
    reply { maxDepth := maxDepth', strict } line = reply { maxDepth, strict } line := by
  rw [← Token.tokenize_trim] at few
  rw [← Expr.read_trim] at h
  simp only [reply, calculate_eq_of_le le strict few h]

end Session

/-- Between two limits on nesting nothing changes if the smaller one refuses no form, and a form
that the larger one refuses is not before the one that the smaller one refuses. No form is refused
if there are no more opening parentheses than forms may be nested. -/
theorem reply_eq_of_maxDepth_le :
    (∀ {maxDepth maxDepth' : UInt64} (line : String), maxDepth ≤ maxDepth' →
      (¬ NestedTooDeeply (Expr.read maxDepth line) →
        Expr.read maxDepth' line = Expr.read maxDepth line ∧
        ((tokenize line).length < 2 ^ 63 → ∀ strict,
          Session.reply { maxDepth := maxDepth', strict } line =
            Session.reply { maxDepth, strict } line)) ∧
      ∀ error', Expr.read maxDepth' line = .error error' → error'.kind = .tooDeeplyNested →
        ∃ error, Expr.read maxDepth line = .error error ∧ error.kind = .tooDeeplyNested ∧
          error.position ≤ error'.position) ∧
    ∀ (maxDepth : UInt64) (line : String), (tokenize line).count .openParen ≤ maxDepth.toNat →
      ¬ NestedTooDeeply (Expr.read maxDepth line) := by
  refine ⟨fun line le => ⟨fun h => ⟨?_, fun few strict => ?_⟩, fun error' => ?_⟩,
    fun maxDepth line => ?_⟩
  · exact Expr.ofTokens_eq_of_le le h
  · exact Session.reply_eq_of_le le strict few h
  · exact Expr.exists_nestedTooDeeply_of_le le
  · exact Expr.not_nestedTooDeeply_of_count_le

/-- One level more reaches past the first refused form, to a second one. -/
theorem reply_eq_of_maxDepth_le_nested :
    let fine := "(+ 1 (* 2 3))"
    let deep := "(+ (* 2 3) (+ 1 (* 2 (- 3 4))))"
    (¬ NestedTooDeeply (Expr.read 2 fine) ∧ Expr.read 3 fine = Expr.read 2 fine ∧
      ∀ strict, Session.reply { maxDepth := 3, strict } fine =
        Session.reply { maxDepth := 2, strict } fine) ∧
    (Expr.read 2 deep = .error (.tooDeeplyNested 2 10) ∧
      ∃ error, Expr.read 1 deep = .error error ∧ error.kind = .tooDeeplyNested ∧
        error.position ≤ 10) ∧
    ¬ NestedTooDeeply (Expr.read 5 deep) := by
  intro fine deep
  have few : (tokenize fine).length < 2 ^ 63 := by decide
  have enough : (tokenize fine).count .openParen ≤ (2 : UInt64).toNat := by decide
  have notNested := reply_eq_of_maxDepth_le.2 2 fine enough
  have larger : (2 : UInt64) ≤ 3 := by decide
  obtain ⟨same, replies⟩ := (reply_eq_of_maxDepth_le.1 fine larger).1 notNested
  have refused : Expr.read 2 deep = .error (.tooDeeplyNested 2 10) := by decide
  have smaller : (1 : UInt64) ≤ 2 := by decide
  have before := (reply_eq_of_maxDepth_le.1 deep smaller).2 _ refused rfl
  exact ⟨⟨notNested, same, replies few⟩, ⟨refused, before⟩,
    reply_eq_of_maxDepth_le.2 5 deep (by decide)⟩

end PolishCalc
