import Mathlib.Control.Monad.Basic
import PolishCalc.Proofs.Evaluation.Value

/-!
# Folding constants

Operands that have a value may be replaced by numbers with this value, any
number of them at once (`Expr.FoldsTo`). As long as the expression is less deep
than the limit, evaluation does not see the difference: the value is the same,
and so is the error, apart from the text of its context
(`Expr.evaluateFor_foldsTo`).
-/

namespace PolishCalc

mutual

/-- The second expression has numbers in the place of some operands of the first one, wherever
operand positions lead, and each number is the value of what it replaces. -/
inductive Expr.FoldsTo (maxDepth : UInt64) : Expr → Expr → Prop where
  | same (e : Expr) : Expr.FoldsTo maxDepth e e
  | number {e : Expr} {text : String} {v : Binary32} : e.evaluateFor maxDepth = .ok v →
      Expr.leafValue text = .ok v → Expr.FoldsTo maxDepth e (.leaf text)
  | form {head : Expr} {operands operands' : Operands} :
      Operands.FoldsTo maxDepth operands operands' →
      Expr.FoldsTo maxDepth (.form head operands) (.form head operands')

inductive Operands.FoldsTo (maxDepth : UInt64) : Operands → Operands → Prop where
  | two {first first' second second' : Expr} : Expr.FoldsTo maxDepth first first' →
      Expr.FoldsTo maxDepth second second' →
      Operands.FoldsTo maxDepth (.two first second) (.two first' second')
  | more {first first' : Expr} {rest rest' : Operands} : Expr.FoldsTo maxDepth first first' →
      Operands.FoldsTo maxDepth rest rest' →
      Operands.FoldsTo maxDepth (.more first rest) (.more first' rest')

end

/-! ## Results up to the text of a context -/

/-- Both results are the same value, or errors that only differ in the text of their contexts. -/
def SameOutcome {α : Type} : Except EvalError α → Except EvalError α → Prop
  | .ok a, .ok a' => a = a'
  | .error error, .error error' => error.kind = error'.kind ∧ error.message = error'.message ∧
      (error.context = none ↔ error'.context = none)
  | _, _ => False

namespace SameOutcome

variable {α β : Type} {x x' : Except EvalError α}

theorem refl (x : Except EvalError α) : SameOutcome x x := by
  cases x with
  | ok a => exact Eq.refl a
  | error error => exact ⟨rfl, rfl, .rfl⟩

theorem bind {f f' : α → Except EvalError β} (h : SameOutcome x x')
    (next : ∀ a, SameOutcome (f a) (f' a)) : SameOutcome (x >>= f) (x' >>= f') := by
  cases x with
  | ok a =>
    cases x' with
    | ok a' =>
      obtain rfl : a = a' := h
      exact next a
    | error => exact h.elim
  | error =>
    cases x' with
    | ok => exact h.elim
    | error => exact h

/-- Outside of two forms both errors have a context, whichever form they lie in. -/
theorem mapError (h : SameOutcome x x') (form form' : Expr) :
    SameOutcome (x.mapError (·.inContext form)) (x'.mapError (·.inContext form')) := by
  cases x with
  | ok =>
    cases x' with
    | ok => exact h
    | error => exact h.elim
  | error error =>
    cases x' with
    | ok => exact h.elim
    | error error' =>
      obtain ⟨kind, message, -⟩ := h
      refine ⟨by simpa using kind, by simpa using message, ?_⟩
      simp only [error.context_inContext_ne_none, error'.context_inContext_ne_none]

end SameOutcome

/-! ## Evaluation -/

section Evaluation

variable {maxDepth : UInt64} {limit : Nat}

/-- What is replaced has the value of the number in its place. -/
theorem Expr.value?_of_evaluateFor {e : Expr} {text : String} {v : Binary32}
    (evaluated : e.evaluateFor maxDepth = .ok v) (spelled : Expr.leafValue text = .ok v) :
    e.value? = some v ∧ (Expr.leaf text).value? = some v :=
  ⟨(Expr.evaluateWithin_eq_ok_iff.mp evaluated).2, Expr.value?_leaf_eq_some_iff.mpr spelled⟩

mutual

theorem Expr.FoldsTo.sameOutcome {e e' : Expr} {level : Nat} (h : e.FoldsTo maxDepth e')
    (fits : level + e.depth < limit) :
    SameOutcome (e.evaluateAt limit level) (e'.evaluateAt limit level) := by
  cases h with
  | same => exact .refl _
  | @number _ text v evaluated spelled =>
    obtain ⟨found, found'⟩ := Expr.value?_of_evaluateFor evaluated spelled
    have shallow : level + (Expr.leaf text).depth < limit := by
      rw [Expr.depth]
      omega
    rw [(e.evaluateAt_eq_ok_iff level).mpr ⟨fits, found⟩,
      (Expr.evaluateAt_eq_ok_iff _ level).mpr ⟨shallow, found'⟩]
    exact .refl _
  | @form head operands operands' inner =>
    have below : level < limit := by omega
    have fitsInside : level + 1 + operands.depth < limit := by
      simp only [Expr.depth] at fits
      omega
    have outcome := inner.sameOutcome fitsInside
    rw [Expr.evaluateAt, Expr.evaluateAt, if_pos below, if_pos below]
    exact (SameOutcome.refl _).bind fun operator =>
      (outcome.mapError _ _).bind fun values => .refl _

theorem Operands.FoldsTo.sameOutcome {operands operands' : Operands} {level : Nat}
    (h : operands.FoldsTo maxDepth operands') (fits : level + operands.depth < limit) :
    SameOutcome (operands.evaluateAt limit level) (operands'.evaluateAt limit level) := by
  cases h with
  | two first second =>
    simp only [Operands.depth] at fits
    exact (first.sameOutcome (by omega)).bind fun x =>
      (second.sameOutcome (by omega)).bind fun y => .refl _
  | more first rest =>
    simp only [Operands.depth] at fits
    exact (first.sameOutcome (by omega)).bind fun x =>
      (rest.sameOutcome (by omega)).bind fun xs => .refl _

end

theorem Expr.FoldsTo.sameOutcome_evaluateWithin {e e' : Expr} (h : e.FoldsTo maxDepth e')
    (fits : e.depth < limit) : SameOutcome (e.evaluateWithin limit) (e'.evaluateWithin limit) := by
  cases h with
  | same => exact .refl _
  | @number _ text v evaluated spelled =>
    obtain ⟨found, found'⟩ := Expr.value?_of_evaluateFor evaluated spelled
    have shallow : (Expr.leaf text).depth < limit := Nat.lt_of_le_of_lt (Nat.zero_le _) fits
    rw [Expr.evaluateWithin_eq_ok_iff.mpr ⟨fits, found⟩,
      Expr.evaluateWithin_eq_ok_iff.mpr ⟨shallow, found'⟩]
    exact .refl _
  | form inner =>
    rw [Expr.evaluateWithin_form, Expr.evaluateWithin_form]
    exact (Expr.FoldsTo.form inner).sameOutcome (by omega)

end Evaluation

/-- Below the limit on the depth, numbers may take the place of operands with their values. -/
theorem Expr.evaluateFor_foldsTo {maxDepth : UInt64} {e e' : Expr}
    (fits : e.depth < max 64 (min (maxDepth.toNat + 1) (UInt64.size - 1)))
    (h : e.FoldsTo maxDepth e') : SameOutcome (e.evaluateFor maxDepth) (e'.evaluateFor maxDepth) :=
  h.sameOutcome_evaluateWithin fits

/-- Two operands are folded at once, one in front of the fault and one beside it in the form that
encloses it. -/
theorem Expr.evaluateFor_foldsTo_faulty :
    let product : Expr := .form (.leaf "*") (.two (.leaf "2") (.leaf "3"))
    let quotient : Expr := .form (.leaf "/") (.two (.leaf "1") (.leaf "4"))
    let e : Expr := .form (.leaf "+")
      (.two product (.form (.leaf "-") (.two quotient (.leaf "x"))))
    let e' : Expr := .form (.leaf "+")
      (.two (.leaf "6") (.form (.leaf "-") (.two (.leaf "25e-2") (.leaf "x"))))
    e.depth < 64 ∧ e.FoldsTo 0 e' ∧ SameOutcome (e.evaluateFor 0) (e'.evaluateFor 0) ∧
      e.evaluateFor 0 =
        .error { EvalError.invalidNumber "x" with context := some "(- (/ 1 4) x)" } ∧
      e'.evaluateFor 0 =
        .error { EvalError.invalidNumber "x" with context := some "(- 25e-2 x)" } := by
  intro product quotient e e'
  have six : product.evaluateFor 0 = .ok (.ofBits 0x40C00000) := by decide +kernel
  have quarter : quotient.evaluateFor 0 = .ok (.ofBits 0x3E800000) := by decide +kernel
  have fits : e.depth < 64 := by decide
  have folded : e.FoldsTo 0 e' :=
    .form (.two (.number six (by decide +kernel))
      (.form (.two (.number quarter (by decide +kernel)) (.same _))))
  exact ⟨fits, folded, evaluateFor_foldsTo fits folded, by decide +kernel, by decide +kernel⟩

end PolishCalc
