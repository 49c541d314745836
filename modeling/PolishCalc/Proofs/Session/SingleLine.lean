import PolishCalc.Proofs.Binary32.Text
import PolishCalc.Proofs.Calculation.Context
import PolishCalc.Proofs.Session.Reply
import PolishCalc.Proofs.Text

/-!
# Answers are single lines

A session prints the texts of numbers, which have no blanks, and messages.
These repeat leaves and forms of the line, but what was read has clean leaves,
and forms are written with spaces. So an answer has no blanks but spaces,
whichever blanks the line has (`Session.reply_single_line`).
-/

namespace PolishCalc

open Text (isBlank SpacesOnly spacesOnly_append spacesOnly_of_solid)

/-! ## Numbers -/

theorem Binary32.spacesOnly_text (x : Binary32) : SpacesOnly x.text :=
  spacesOnly_of_solid fun _ mem => (plain_of_mem_text mem).1

/-! ## Expressions -/

mutual

theorem Expr.spacesOnly_render (e : Expr) (plain : ∀ text ∈ e.leaves, SpacesOnly text) :
    SpacesOnly e.render := by
  cases e with
  | leaf text => exact plain text (List.mem_singleton.mpr rfl)
  | form head operands =>
    obtain ⟨plainHead, plainOperands⟩ := List.forall_mem_append.mp plain
    simp only [Expr.render, spacesOnly_append, head.spacesOnly_render plainHead,
      operands.spacesOnly_render plainOperands, and_true]
    decide

theorem Operands.spacesOnly_render (operands : Operands)
    (plain : ∀ text ∈ operands.leaves, SpacesOnly text) : SpacesOnly operands.render := by
  cases operands with
  | two first second =>
    obtain ⟨plainFirst, plainSecond⟩ := List.forall_mem_append.mp plain
    simp only [Operands.render, spacesOnly_append, first.spacesOnly_render plainFirst,
      second.spacesOnly_render plainSecond, and_true, and_self]
    decide
  | more first rest =>
    obtain ⟨plainFirst, plainRest⟩ := List.forall_mem_append.mp plain
    simp only [Operands.render, spacesOnly_append, first.spacesOnly_render plainFirst,
      rest.spacesOnly_render plainRest, and_true]
    decide

end

/-! ## Messages -/

namespace Expr

variable {maxDepth : UInt64} {limit : Nat} {text : String} {e : Expr}

theorem spacesOnly_leaves_of_read (h : read maxDepth text = .ok e) :
    ∀ leaf ∈ e.leaves, SpacesOnly leaf :=
  fun leaf mem => spacesOnly_of_solid (clean_leaves_of_read h leaf mem).solid

theorem spacesOnly_message_of_read_error {error : SyntaxError}
    (h : read maxDepth text = .error error) : SpacesOnly error.message := by
  obtain ⟨result, ends, eq⟩ := ends_ofTokens maxDepth (Token.tokenize text)
  rw [read, eq] at h
  cases ends with
  | complete => cases h
  | exhausted =>
    obtain rfl := Except.error.inj h
    show SpacesOnly "unexpected end of expression"
    decide
  | refused _ _ refused =>
    obtain rfl := Except.error.inj h
    rcases OpenForm.step_error refused with ⟨-, -, rfl⟩ | ⟨-, -, rfl⟩ | ⟨-, _, _, -, -, rfl⟩
    · show SpacesOnly "unexpected closing parenthesis"
      decide
    · show SpacesOnly (_ ++ _ ++ toString maxDepth.toNat ++ _)
      simp only [spacesOnly_append, Text.spacesOnly_toString, and_true]
      decide
    · show SpacesOnly "invalid expression"
      decide

theorem spacesOnly_message_unknownOperator {head : String} (h : SpacesOnly head) :
    SpacesOnly (EvalError.unknownOperator head).message :=
  spacesOnly_append.mpr ⟨by decide, h⟩

theorem spacesOnly_message_of_evaluateAt_error {level : Nat} {error : EvalError}
    (plain : ∀ leaf ∈ e.leaves, SpacesOnly leaf) (h : e.evaluateAt limit level = .error error) :
    SpacesOnly error.message := by
  refine e.cause_of_evaluateAt_error (p := (SpacesOnly ·.message)) ?_ ?_ ?_ h
  · intro leaf reached
    have mem : leaf ∈ e.leaves := reached.leaves_subset (List.mem_singleton.mpr rfl)
    exact spacesOnly_append.mpr ⟨by decide, plain leaf mem⟩
  · intro head operands reached
    have inside : ∀ leaf ∈ head.leaves, SpacesOnly leaf := fun leaf mem =>
      plain leaf (reached.leaves_subset (List.mem_append_left _ mem))
    exact spacesOnly_message_unknownOperator (head.spacesOnly_render inside)
  · show SpacesOnly ("evaluation depth limit exceeded (max: " ++ toString limit ++ ")")
    simp only [spacesOnly_append, Text.spacesOnly_toString, and_true]
    decide

theorem spacesOnly_message_of_evaluateWithin_error {error : EvalError}
    (plain : ∀ leaf ∈ e.leaves, SpacesOnly leaf) (h : e.evaluateWithin limit = .error error) :
    SpacesOnly error.message := by
  unfold evaluateWithin at h
  split at h
  · obtain rfl := Except.error.inj h
    exact spacesOnly_message_unknownOperator (e.spacesOnly_render plain)
  · exact spacesOnly_message_of_evaluateAt_error plain h

end Expr

/-! ## Answers -/

namespace Session

theorem spacesOnly_report_calculate (session : Session) (text : String) :
    SpacesOnly (report (session.calculate text)) := by
  have evaluationError : SpacesOnly "EvaluationError: " := by decide
  cases result : Expr.read session.maxDepth text with
  | ok e =>
    rw [calculate_of_read result]
    cases evaluated : e.evaluateFor session.maxDepth with
    | ok v => exact spacesOnly_append.mpr ⟨by decide, v.spacesOnly_text⟩
    | error error =>
      have message := Expr.spacesOnly_message_of_evaluateWithin_error
        (Expr.spacesOnly_leaves_of_read result) evaluated
      exact spacesOnly_append.mpr ⟨evaluationError, message⟩
  | error error =>
    rw [calculate_of_read_error result]
    split
    · exact spacesOnly_append.mpr ⟨by decide, Expr.spacesOnly_message_of_read_error result⟩
    · decide

theorem report_ne_empty (result : Except Failure Binary32) : report result ≠ "" := by
  cases result with
  | ok v => simp [report]
  | error failure => cases failure <;> simp [report]

/-- What a session prints for a line is a line: it is not empty and has no blanks but spaces, so it
is read back from the output as the only line. -/
theorem reply_single_line {session : Session} {line text : String}
    (h : session.reply line = .print text) :
    text ≠ "" ∧ (∀ c ∈ text.toList, isBlank c = true → c = ' ') ∧
      Text.lines (session.reply line).output = [text] := by
  have answer : text = report (session.calculate line) := by
    rw [reply_eq] at h
    split at h
    · cases h
    · split at h
      · cases h
      · exact (Reply.print.inj h).symm
  have plain : SpacesOnly text := answer ▸ session.spacesOnly_report_calculate line
  refine ⟨answer ▸ report_ne_empty _, plain, ?_⟩
  rw [h]
  exact plain.lines_append_newline

/-- The unknown operator is a form that the line breaks up with a line feed and a tabulator. -/
theorem reply_single_line_form :
    let session : Session := { maxDepth := 3, strict := true }
    let line := "\u3000((+ 1\n(* 2\t3)) 4 5)\n"
    let text := "EvaluationError: unknown operator (+ 1 (* 2 3))"
    session.reply line = .print text ∧ text ≠ "" ∧
      (∀ c ∈ text.toList, isBlank c = true → c = ' ') ∧
      Text.lines (session.reply line).output = [text] := by
  intro session line text
  have answer : session.reply line = .print text := by decide +kernel
  exact ⟨answer, reply_single_line answer⟩

end Session

end PolishCalc
