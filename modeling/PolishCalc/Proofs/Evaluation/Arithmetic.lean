import Mathlib.Logic.ExistsUnique
import PolishCalc.Proofs.Evaluation.Value
import PolishCalc.Proofs.Expr.Reach

/-!
# Arithmetic expressions

An expression is arithmetic if operand positions lead to nothing but numbers and
forms headed by operators. `Expr.HasValue` gives values to expressions by one
rule for numbers and one for operators, and so exactly one value to each
arithmetic expression (`Expr.isArithmetic_iff_existsUnique`). Evaluation finds it
below the limit and nowhere else (`Expr.evaluate_arithmetic`).
-/

namespace PolishCalc

inductive Expr.IsArithmetic : Expr → Prop where
  | number {text : String} {v : Binary32} : Expr.leafValue text = .ok v →
      IsArithmetic (.leaf text)
  | operation {operator : Operator} {operands : Operands} :
      (∀ x ∈ operands.toList, IsArithmetic x) →
      IsArithmetic (.form (.leaf operator.symbol) operands)

mutual

/-- The expression has the value, whatever any limit says. -/
inductive Expr.HasValue : Expr → Binary32 → Prop where
  | number {text : String} {v : Binary32} : Expr.leafValue text = .ok v →
      Expr.HasValue (.leaf text) v
  | operation {operator : Operator} {operands : Operands} {values : List Binary32} :
      Operands.HaveValues operands values →
      Expr.HasValue (.form (.leaf operator.symbol) operands) (operator.apply values)

/-- The operands have the values, in order. -/
inductive Operands.HaveValues : Operands → List Binary32 → Prop where
  | two {first second : Expr} {x y : Binary32} : Expr.HasValue first x → Expr.HasValue second y →
      Operands.HaveValues (.two first second) [x, y]
  | more {first : Expr} {rest : Operands} {x : Binary32} {xs : List Binary32} :
      Expr.HasValue first x → Operands.HaveValues rest xs →
      Operands.HaveValues (.more first rest) (x :: xs)

end

/-! ## The value is computed -/

mutual

theorem Expr.value?_eq_some_iff (e : Expr) {v : Binary32} : e.value? = some v ↔ e.HasValue v := by
  cases e with
  | leaf text =>
    rw [Expr.value?_leaf_eq_some_iff]
    constructor
    · exact .number
    · rintro ⟨found⟩
      exact found
  | form head operands =>
    rw [Expr.value?_form_eq_some_iff]
    constructor
    · rintro ⟨operator, values, rfl, found, rfl⟩
      exact .operation (operands.values?_eq_some_iff.mp found)
    · rintro (_ | values)
      exact ⟨_, _, rfl, operands.values?_eq_some_iff.mpr values, rfl⟩

theorem Operands.values?_eq_some_iff (operands : Operands) {values : List Binary32} :
    operands.values? = some values ↔ operands.HaveValues values := by
  cases operands with
  | two first second =>
    rw [Operands.values?_two_eq_some_iff]
    constructor
    · rintro ⟨x, y, foundFirst, foundSecond, rfl⟩
      exact .two (first.value?_eq_some_iff.mp foundFirst) (second.value?_eq_some_iff.mp foundSecond)
    · rintro ⟨here, next⟩
      exact ⟨_, _, first.value?_eq_some_iff.mpr here, second.value?_eq_some_iff.mpr next, rfl⟩
  | more first rest =>
    rw [Operands.values?_more_eq_some_iff]
    constructor
    · rintro ⟨x, xs, foundFirst, foundRest, rfl⟩
      exact .more (first.value?_eq_some_iff.mp foundFirst) (rest.values?_eq_some_iff.mp foundRest)
    · rintro (_ | ⟨here, later⟩)
      exact ⟨_, _, first.value?_eq_some_iff.mpr here, rest.values?_eq_some_iff.mpr later, rfl⟩

end

namespace Expr

theorem isArithmetic_iff_exists_value? (e : Expr) :
    e.IsArithmetic ↔ ∃ v, e.value? = some v := by
  induction e using Expr.induction with
  | leaf text =>
    constructor
    · rintro ⟨found⟩
      exact ⟨_, value?_leaf_eq_some_iff.mpr found⟩
    · rintro ⟨v, found⟩
      exact .number (value?_leaf_eq_some_iff.mp found)
  | form head operands _ ih =>
    constructor
    · rintro (_ | arithmetic)
      have parts := fun x mem => (ih x mem).mp (arithmetic x mem)
      obtain ⟨values, foundAll⟩ := operands.exists_values?_iff.mpr parts
      exact ⟨_, value?_form_eq_some_iff.mpr ⟨_, values, rfl, foundAll, rfl⟩⟩
    · rintro ⟨v, found⟩
      obtain ⟨operator, values, rfl, foundAll, -⟩ := value?_form_eq_some_iff.mp found
      have parts := operands.exists_values?_iff.mp ⟨values, foundAll⟩
      exact .operation fun x mem => (ih x mem).mpr (parts x mem)

theorem isArithmetic_iff_existsUnique (e : Expr) : e.IsArithmetic ↔ ∃! v, e.HasValue v := by
  rw [isArithmetic_iff_exists_value?]
  simp only [← value?_eq_some_iff]
  constructor
  · rintro ⟨v, found⟩
    exact ⟨v, found, fun w other => Option.some.inj (other.symm.trans found)⟩
  · exact ExistsUnique.exists

theorem evaluateWithin_eq_ok_iff_isArithmetic {limit : Nat} {e : Expr} {v : Binary32} :
    e.evaluateWithin limit = .ok v ↔ e.IsArithmetic ∧ e.depth < limit ∧ e.HasValue v := by
  rw [evaluateWithin_eq_ok_iff, isArithmetic_iff_exists_value?, ← value?_eq_some_iff]
  constructor
  · rintro ⟨fits, found⟩
    exact ⟨⟨v, found⟩, fits, found⟩
  · exact And.right

/-- The arithmetic expressions are those with a value, and they have one value only. Evaluation
succeeds on those that are less deep than the limit, and with their value. -/
theorem evaluate_arithmetic (e : Expr) :
    (e.IsArithmetic ↔ ∃! v, e.HasValue v) ∧
    ∀ v,
      (∀ maxDepth : UInt64, e.evaluateFor maxDepth = .ok v ↔
        e.IsArithmetic ∧ e.depth < max 64 (min (maxDepth.toNat + 1) (UInt64.size - 1)) ∧
          e.HasValue v) ∧
      (e.evaluate = .ok v ↔ e.IsArithmetic ∧ e.depth < 64 ∧ e.HasValue v) :=
  ⟨e.isArithmetic_iff_existsUnique, fun _ =>
    ⟨fun _ => evaluateWithin_eq_ok_iff_isArithmetic, evaluateWithin_eq_ok_iff_isArithmetic⟩⟩

end Expr

end PolishCalc
