import PolishCalc.Proofs.Evaluation.Value
import PolishCalc.Proofs.Token.Cut
import PolishCalc.Session

/-!
# What a calculation comes to

If a text can be read, calculating comes to evaluating what was read. If not,
lenient calculation reports the placeholder as an unknown operator
(`calculate_of_read_error`), and a strict session reports the syntax error
(`Session.calculate_of_read_error`).
-/

namespace PolishCalc

namespace Expr

variable {maxDepth : UInt64} {text : String} {e : Expr}

theorem readOrPlaceholder_of_read (h : read maxDepth text = .ok e) :
    readOrPlaceholder maxDepth text = e := by
  rw [readOrPlaceholder, h]

theorem readOrPlaceholder_of_read_error {error : SyntaxError}
    (h : read maxDepth text = .error error) : readOrPlaceholder maxDepth text = placeholder := by
  rw [readOrPlaceholder, h]

theorem read_trim (maxDepth : UInt64) (text : String) :
    read maxDepth (Text.trim text) = read maxDepth text := by
  rw [read, Token.tokenize_trim, read]

end Expr

theorem calculate_of_read {text : String} {e : Expr}
    (h : Expr.read Expr.defaultMaxDepth text = .ok e) : calculate text = e.evaluate := by
  rw [calculate, Expr.readOrPlaceholder_of_read h]

theorem calculate_of_read_error {text : String} {error : SyntaxError}
    (h : Expr.read Expr.defaultMaxDepth text = .error error) :
    calculate text = .error (.unknownOperator "ERROR") := by
  rw [calculate, Expr.readOrPlaceholder_of_read_error h]
  exact Expr.evaluateWithin_placeholder _

namespace Session

variable {session : Session} {text : String}

theorem calculate_of_read {e : Expr} (h : Expr.read session.maxDepth text = .ok e) :
    session.calculate text = (e.evaluateFor session.maxDepth).mapError .evaluating := by
  unfold calculate
  split
  · rw [h]
    rfl
  · rw [calculateFor, Expr.readOrPlaceholder_of_read h]

theorem calculate_of_read_error {error : SyntaxError}
    (h : Expr.read session.maxDepth text = .error error) :
    session.calculate text = .error
      (if session.strict then .reading error else .evaluating (.unknownOperator "ERROR")) := by
  unfold calculate
  split
  · rw [h]
    rfl
  · rw [calculateFor, Expr.readOrPlaceholder_of_read_error h, Expr.evaluateFor,
      Expr.evaluateWithin_placeholder]
    rfl

end Session

end PolishCalc
