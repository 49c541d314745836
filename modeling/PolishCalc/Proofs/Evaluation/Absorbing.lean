import PolishCalc.Proofs.Evaluation.Inside
import PolishCalc.Proofs.Operator.Absorbing

/-!
# Operands that decide a value

Every operator passes on not-a-number, from whichever operand it comes. So if
operand positions lead to not-a-number, however deep inside, the whole
expression comes to it (`Expr.Reaches.value?_eq_nan`).

A quotient with the divisor zero is an infinity or not-a-number, so each form in
an evaluated expression that divides by zero comes to one of these
(`Expr.isFinite_of_zero_divisor`). It is not an error: whether an expression
evaluates depends on whether its operands do, not on their values, zero or not
(`Expr.Replaced.exists_evaluateWithin`).
-/

namespace PolishCalc

open Binary32 (nan)

/-! ## Not-a-number -/

theorem Expr.Reaches.value?_eq_nan {e x : Expr} {v : Binary32} (h : e.Reaches x)
    (foundInside : x.value? = some nan) (found : e.value? = some v) : v = nan := by
  induction h generalizing v with
  | refl => exact Option.some.inj (found.symm.trans foundInside)
  | @operand head x y operands mem _ ih =>
    obtain ⟨w, foundHere⟩ := exists_value?_of_mem found mem
    obtain rfl := ih foundInside foundHere
    obtain ⟨operator, values, -, foundAll, rfl⟩ := value?_form_eq_some_iff.mp found
    exact operator.apply_eq_nan_of_mem (operands.mem_values foundAll mem foundHere)

/-- Not-a-number among the operands is the value of every operator, and that of a whole expression
if something that is evaluated in it comes to it. -/
theorem nan_never_masked :
    (∀ (operator : Operator) {xs : List Binary32}, nan ∈ xs → operator.apply xs = nan) ∧
    ∀ {limit limit' : Nat} {e x : Expr} {v : Binary32}, e.evaluateWithin limit = .ok v →
      e.Reaches x → x.evaluateWithin limit' = .ok nan → v = nan := by
  refine ⟨fun operator _ mem => operator.apply_eq_nan_of_mem mem, ?_⟩
  intro limit limit' e x v evaluated reached inside
  have found := (Expr.evaluateWithin_eq_ok_iff.mp evaluated).2
  have foundInside := (Expr.evaluateWithin_eq_ok_iff.mp inside).2
  exact reached.value?_eq_nan foundInside found

/-- The quotient of two infinities is the last of three divisors, in a subtrahend. -/
theorem nan_never_masked_divisor :
    let inside : Expr := .form (.leaf "/") (.two (.leaf "1e39") (.leaf "1e39"))
    let quotient : Expr := .form (.leaf "/")
      (.more (.leaf "1") (.more (.leaf "1e39") (.two (.leaf "1e39") inside)))
    let e : Expr := .form (.leaf "-") (.two (.leaf "0") quotient)
    Operator.divide.apply [.one, .infinite false, nan] = nan ∧ e.Reaches inside ∧
      inside.evaluateWithin 2 = .ok nan ∧ e.evaluateWithin 4 = .ok nan := by
  intro inside quotient e
  have last : inside ∈ (Operands.more (.leaf "1")
      (.more (.leaf "1e39") (.two (.leaf "1e39") inside))).toList := by simp [Operands.toList]
  have reached : e.Reaches inside :=
    .operand (x := quotient) (by simp [Operands.toList]) (.operand last (.refl inside))
  have alone : inside.evaluateWithin 2 = .ok nan :=
    Expr.evaluateWithin_eq_ok_iff.mpr ⟨by decide, by decide +kernel⟩
  obtain ⟨v, found⟩ : ∃ v, e.value? = some v :=
    Option.isSome_iff_exists.mp (by decide +kernel)
  have evaluated : e.evaluateWithin 4 = .ok v :=
    Expr.evaluateWithin_eq_ok_iff.mpr ⟨by decide, found⟩
  obtain rfl := nan_never_masked.2 evaluated reached alone
  exact ⟨nan_never_masked.1 .divide (by simp), reached, alone, evaluated⟩

/-! ## Zero as a divisor -/

theorem Expr.isFinite_of_zero_divisor {operands : Operands} {x : Expr} {v zero : Binary32}
    (found : (Expr.form (.leaf "/") operands).value? = some v)
    (divisor : x ∈ operands.toList.tail) (foundZero : x.value? = some zero) (h : zero.IsZero) :
    v.isFinite = false := by
  obtain ⟨operator, values, spelled, foundAll, rfl⟩ := value?_form_eq_some_iff.mp found
  obtain rfl : operator = .divide := by
    revert spelled
    cases operator <;> decide
  obtain ⟨dividend, divisors, rfl, later⟩ := operands.exists_values_cons foundAll
  exact Operator.isFinite_divide_of_isZero dividend (later x divisor zero foundZero) h

/-! ## Other operands in the same place -/

namespace Expr

variable {limit level : Nat} {x z e e' : Expr} {v w : Binary32}

theorem Replaced.exists_value? (h : Replaced x z level e e') (found : e.value? = some v)
    (instead : z.value? = some w) : ∃ v', e'.value? = some v' := by
  induction h generalizing v with
  | here => exact ⟨w, instead⟩
  | @operand level head a b operands operands' before after was is _ ih =>
    obtain ⟨operator, values, rfl, foundAll, -⟩ := value?_form_eq_some_iff.mp found
    have parts := operands.exists_values?_iff.mp ⟨values, foundAll⟩
    rw [was, List.forall_mem_append, List.forall_mem_cons] at parts
    obtain ⟨partsBefore, ⟨u, foundHere⟩, partsAfter⟩ := parts
    have parts' : ∀ y ∈ operands'.toList, ∃ u, y.value? = some u := by
      rw [is, List.forall_mem_append, List.forall_mem_cons]
      exact ⟨partsBefore, ih foundHere, partsAfter⟩
    obtain ⟨values', foundAll'⟩ := operands'.exists_values?_iff.mpr parts'
    exact ⟨_, value?_form_eq_some_iff.mpr ⟨operator, values', rfl, foundAll', rfl⟩⟩

theorem Replaced.exists_evaluateWithin (h : Replaced x z level e e')
    (evaluated : e.evaluateWithin limit = .ok v) (instead : z.evaluateAt limit level = .ok w) :
    ∃ v', e'.evaluateWithin limit = .ok v' := by
  obtain ⟨fits, found⟩ := evaluateWithin_eq_ok_iff.mp evaluated
  obtain ⟨fitsInstead, foundInstead⟩ := (z.evaluateAt_eq_ok_iff level).mp instead
  obtain ⟨v', found'⟩ := h.exists_value? found foundInstead
  have := h.depth_le
  exact ⟨v', evaluateWithin_eq_ok_iff.mpr ⟨by omega, found'⟩⟩

end Expr

/-- Where a divisor is zero the quotient is not finite, whatever the other operands are, and so is
each form in an evaluated expression that divides by zero. Where an operand is evaluated, anything
else that evaluates there, be it to zero, leaves the expression without an error. -/
theorem divide_by_zero :
    (∀ (x : Binary32) {xs : List Binary32} {zero : Binary32}, zero ∈ xs → zero.IsZero →
      (Operator.divide.apply (x :: xs)).isFinite = false) ∧
    (∀ {limit limit' : Nat} {e x : Expr} {v zero : Binary32} {operands : Operands},
      e.evaluateWithin limit = .ok v → e.Contains (.form (.leaf "/") operands) →
      x ∈ operands.toList.tail → x.evaluateWithin limit' = .ok zero → zero.IsZero →
      ∃ w, (Expr.form (.leaf "/") operands).evaluateWithin limit = .ok w ∧ w.isFinite = false) ∧
    ∀ {limit level : Nat} {x z e e' : Expr} {v w : Binary32}, Expr.Replaced x z level e e' →
      e.evaluateWithin limit = .ok v → z.evaluateAt limit level = .ok w →
      ∃ v', e'.evaluateWithin limit = .ok v' := by
  refine ⟨Operator.isFinite_divide_of_isZero, ?_, Expr.Replaced.exists_evaluateWithin⟩
  intro limit limit' e x v zero operands evaluated contained divisor inside isZero
  have found := (Expr.evaluateWithin_eq_ok_iff.mp evaluated).2
  obtain ⟨w, evaluatedForm, foundForm⟩ :=
    (contained.reaches found).exists_evaluateWithin evaluated
  have foundZero := (Expr.evaluateWithin_eq_ok_iff.mp inside).2
  exact ⟨w, evaluatedForm, Expr.isFinite_of_zero_divisor foundForm divisor foundZero isZero⟩

/-- The product in the place of the divisor `2` underflows to negative zero. -/
theorem divide_by_zero_negative :
    let zero : Expr := .form (.leaf "*") (.two (.leaf "-1e-30") (.leaf "1e-30"))
    let quotient (x : Expr) : Expr := .form (.leaf "/") (.more (.leaf "6") (.two x (.leaf "3")))
    let e (x : Expr) : Expr := .form (.leaf "+") (.two (.leaf "1") (quotient x))
    let negativeZero : Binary32 := .finite true 0
    (Operator.divide.apply [.one, .infinite true, negativeZero, .nan]).isFinite = false ∧
      (e (.leaf "2")).evaluateWithin 4 = .ok (.ofBits 0x40000000) ∧
      zero.evaluateAt 4 2 = .ok negativeZero ∧
      (∃ v, (e zero).evaluateWithin 4 = .ok v) ∧
      ∃ w, (quotient zero).evaluateWithin 4 = .ok w ∧ w.isFinite = false := by
  intro zero quotient e negativeZero
  have isZero : negativeZero.IsZero := ⟨true, rfl⟩
  have evaluated : (e (.leaf "2")).evaluateWithin 4 = .ok (.ofBits 0x40000000) :=
    Expr.evaluateWithin_eq_ok_iff.mpr ⟨by decide, by decide +kernel⟩
  have foundZero : zero.value? = some negativeZero := by decide +kernel
  have inside : zero.evaluateWithin 4 = .ok negativeZero :=
    Expr.evaluateWithin_eq_ok_iff.mpr ⟨by decide, foundZero⟩
  have instead : zero.evaluateAt 4 2 = .ok negativeZero :=
    (zero.evaluateAt_eq_ok_iff 2).mpr ⟨by decide, foundZero⟩
  have divisor : Expr.Replaced (.leaf "2") zero 1 (quotient (.leaf "2")) (quotient zero) :=
    .operand (show _ = [.leaf "6"] ++ .leaf "2" :: [.leaf "3"] from rfl) rfl .here
  have replaced : Expr.Replaced (.leaf "2") zero 2 (e (.leaf "2")) (e zero) :=
    .operand (show _ = [.leaf "1"] ++ quotient (.leaf "2") :: [] from rfl) rfl divisor
  have contained : (e zero).Contains (quotient zero) :=
    .child (x := quotient zero) (by simp [e, Expr.children, Operands.toList]) (.refl _)
  obtain ⟨ofOperator, ofExpr, ofReplaced⟩ := divide_by_zero
  obtain ⟨v, evaluated'⟩ := ofReplaced replaced evaluated instead
  have quotientInfinite := ofExpr evaluated' contained (by simp [Operands.toList]) inside isZero
  exact ⟨ofOperator .one (by simp) isZero, evaluated, instead, ⟨v, evaluated'⟩, quotientInfinite⟩

end PolishCalc
