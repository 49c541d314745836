import PolishCalc.Expr.Evaluation
import PolishCalc.Expr.Reading

/-!
# The value of a text

A text is read and then evaluated. Lenient calculation evaluates the
placeholder where nothing can be read, and so fails with the one message
`unknown operator ERROR`; strict calculation reports the syntax error. So a
text has a value, or it cannot be read, or what was read cannot be evaluated.
-/

namespace PolishCalc

/-- Lenient calculation with the default limits. -/
def calculate (text : String) : Except EvalError Binary32 :=
  (Expr.readOrPlaceholder Expr.defaultMaxDepth text).evaluate

/-- Lenient calculation with at most `maxDepth` nested forms. -/
def calculateFor (maxDepth : UInt64) (text : String) : Except EvalError Binary32 :=
  (Expr.readOrPlaceholder maxDepth text).evaluateFor maxDepth

/-! ## Failures -/

inductive Failure where
  | reading (error : SyntaxError)
  | evaluating (error : EvalError)
  deriving DecidableEq, Repr

namespace Failure

def message : Failure → String
  | reading error => error.message
  | evaluating error => error.message

/-- One line: the kind of failure and its message. -/
def headline : Failure → String
  | reading error => "SyntaxError: " ++ error.message
  | evaluating error => "EvaluationError: " ++ error.message

@[simp] theorem headline_reading (error : SyntaxError) :
    (reading error).headline = "SyntaxError: " ++ error.message :=
  rfl

@[simp] theorem headline_evaluating (error : EvalError) :
    (evaluating error).headline = "EvaluationError: " ++ error.message :=
  rfl

/-- The headline and, on a line of its own, the enclosing form if one is known. -/
def describe (failure : Failure) : String :=
  match failure with
  | evaluating { context := some form, .. } =>
    failure.headline ++ "\n  Context: while evaluating: " ++ form
  | _ => failure.headline

end Failure

end PolishCalc
