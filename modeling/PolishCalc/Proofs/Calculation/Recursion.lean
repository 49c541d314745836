import PolishCalc.Proofs.Evaluation.Levels
import PolishCalc.Proofs.Reading.Cursor

/-!
# Recursion is bounded by the limits

Reading by recursive descent never has more forms under way inside one another
than one more than may be nested, and evaluation is never entered at a level
above the limit, however many tokens there are and however deep the expression
is (`recursion_bounded`). For the reader no smaller bound would do
(`Descent.readExpr_openParens`).
-/

namespace PolishCalc

open Descent (readExpr)

/-- Opening parentheses alone use up all the fuel there is. -/
theorem Descent.readExpr_openParens {n maxDepth fuel depth p : Nat} (opened : p + fuel < n)
    (fits : depth + fuel ≤ maxDepth) :
    readExpr (List.replicate n .openParen) maxDepth (some fuel) depth p = none := by
  have opening {i : Nat} (h : i < n) : (List.replicate n Token.openParen)[i]? = some .openParen :=
    List.getElem?_replicate_of_lt h
  induction fuel generalizing depth p with
  | zero =>
    rw [readExpr_of_openParen (opening (by omega))]
    rfl
  | succ fuel ih =>
    rw [readExpr_of_openParen (opening (by omega))]
    show readForm _ _ (some fuel) _ _ = none
    rw [readForm_of_le (by omega), readChildren_of_child (opening (by omega)) nofun,
      ih (by omega) (by omega)]
    rfl

/-- With fuel for one form more than may be nested, reading comes to the same as without a bound,
and evaluation comes to the same if it may not be entered above the level of the limit. What stands
at that level or deeper may be replaced. -/
theorem recursion_bounded :
    (∀ (maxDepth : UInt64) (tokens : List Token), ∃ q,
      readExpr tokens maxDepth.toNat none 0 0 = some (Expr.ofTokens maxDepth tokens, q) ∧
      readExpr tokens maxDepth.toNat (some (maxDepth.toNat + 1)) 0 0 =
        some (Expr.ofTokens maxDepth tokens, q)) ∧
    (∀ (limit : Nat) (e : Expr),
      (e.evaluateUpTo limit limit 0).run = some (e.evaluateAt limit 0)) ∧
    ∀ {x z e e' : Expr} {level limit : Nat}, Expr.Replaced x z level e e' → limit ≤ level →
      SameOutcome (e.evaluateAt limit 0) (e'.evaluateAt limit 0) := by
  refine ⟨fun maxDepth tokens => ?_, fun limit e => ?_, fun replaced deep => ?_⟩
  · obtain ⟨q, returns⟩ := Descent.exists_readExpr_eq_ofTokens maxDepth tokens
    refine ⟨q, returns rfl nofun, returns rfl fun n same => ?_⟩
    obtain rfl := Option.some.inj same
    omega
  · exact e.evaluateUpTo_eq (Nat.le_refl limit) (Nat.zero_le limit)
  · exact replaced.sameOutcome (by omega)

/-- What is replaced lies at the level of the limit, where evaluation fails for it. -/
theorem recursion_bounded_replaced :
    let product (x : Expr) : Expr := .form (.leaf "*") (.two (.leaf "2") x)
    let sum (x : Expr) : Expr := .form (.leaf "+") (.two (.leaf "1") (product x))
    let inner : Expr := .form (.leaf "-") (.two (.leaf "3") (.leaf "4"))
    let failed (context : String) : Except EvalError Binary32 :=
      .error { EvalError.depthExceeded 2 with context := some context }
    Expr.Replaced inner (.leaf "x") 2 (sum inner) (sum (.leaf "x")) ∧
      SameOutcome ((sum inner).evaluateAt 2 0) ((sum (.leaf "x")).evaluateAt 2 0) ∧
      (sum inner).evaluateAt 2 0 = failed "(* 2 (- 3 4))" ∧
      (sum (.leaf "x")).evaluateAt 2 0 = failed "(* 2 x)" := by
  intro product sum inner failed
  have inside : Expr.Replaced inner (.leaf "x") 1 (product inner) (product (.leaf "x")) :=
    .operand (show _ = [.leaf "2"] ++ inner :: [] from rfl) rfl .here
  have replaced : Expr.Replaced inner (.leaf "x") 2 (sum inner) (sum (.leaf "x")) :=
    .operand (show _ = [.leaf "1"] ++ product inner :: [] from rfl) rfl inside
  exact ⟨replaced, recursion_bounded.2.2 replaced (Nat.le_refl 2), by decide +kernel,
    by decide +kernel⟩

end PolishCalc
