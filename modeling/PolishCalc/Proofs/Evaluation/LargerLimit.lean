import PolishCalc.Proofs.Evaluation.Arithmetic
import PolishCalc.Proofs.Evaluation.Limit

/-!
# Larger limits

A larger limit changes a result only if that result complains about the depth,
whatever the expression (`Expr.evaluateFor_larger_limit`). No expression below
the limit gets that complaint, and every arithmetic expression that is not below
it does (`Expr.exists_depthExceeded_of_le_depth`), so the limit cannot be
lowered for any of them.
-/

namespace PolishCalc.Expr

theorem limitFor_of_le {maxDepth : UInt64} (small : maxDepth ≤ 63) :
    limitFor maxDepth = defaultLimit := by
  have : maxDepth.toNat ≤ 63 := UInt64.le_iff_toNat_le.mp small
  have : defaultLimit = 64 := rfl
  unfold limitFor
  omega

theorem exists_depthExceeded_of_le_depth {limit : Nat} {e : Expr} (arithmetic : e.IsArithmetic)
    (le : limit ≤ e.depth) :
    ∃ error, e.evaluateWithin limit = .error error ∧ error.kind = .depthExceeded := by
  obtain ⟨v, found⟩ := e.isArithmetic_iff_exists_value?.mp arithmetic
  apply Classical.byContradiction
  intro other
  -- Any other result would stay up to a limit above the depth, and there the result is a value.
  have within : WithinLimit (e.evaluateWithin limit) := fun error failed kind =>
    other ⟨error, failed, kind⟩
  have enough : e.evaluateWithin (e.depth + 1) = .ok v :=
    evaluateWithin_eq_ok_iff.mpr ⟨Nat.lt_succ_self _, found⟩
  rw [evaluateWithin_eq_of_le (Nat.le_succ_of_le le) within, evaluateWithin_eq_ok_iff] at enough
  omega

/-- Under a larger limit a result stays as it is unless it is an error about the depth, and the
limits for up to 63 nested forms are the default one. Below the limit there is no such error, and
from the limit on it is the result for all that is arithmetic. -/
theorem evaluateFor_larger_limit (e : Expr) :
    (∀ {maxDepth maxDepth' : UInt64}, maxDepth ≤ maxDepth' → WithinLimit (e.evaluateFor maxDepth) →
      e.evaluateFor maxDepth' = e.evaluateFor maxDepth) ∧
    (∀ {maxDepth : UInt64}, maxDepth ≤ 63 → e.evaluate = e.evaluateFor maxDepth) ∧
    (∀ {limit : Nat}, e.depth < limit → WithinLimit (e.evaluateWithin limit)) ∧
    ∀ {limit : Nat}, e.IsArithmetic → limit ≤ e.depth →
      ∃ error, e.evaluateWithin limit = .error error ∧ error.kind = .depthExceeded := by
  refine ⟨fun le within => ?_, fun small => ?_, withinLimit_evaluateWithin,
    exists_depthExceeded_of_le_depth⟩
  · exact evaluateWithin_eq_of_le (limitFor_mono le) within
  · rw [evaluate, evaluateFor, limitFor_of_le small]

/-- A fault in front hides the depth behind it, and an arithmetic expression is too deep for a limit
that equals its depth. -/
theorem evaluateFor_larger_limit_deep :
    let around (e : Expr) : Expr := .form (.leaf "+") (.two (.leaf "1") e)
    let deep := Nat.repeat around 64 (.leaf "1")
    let faulty : Expr := .form (.leaf "-") (.two (.leaf "x") deep)
    (faulty.evaluateFor 10 = .error ((EvalError.invalidNumber "x").inContext faulty) ∧
      faulty.evaluateFor 100 = faulty.evaluateFor 10 ∧
      faulty.evaluate = faulty.evaluateFor 10) ∧
    deep.depth = 64 ∧ deep.IsArithmetic ∧ WithinLimit (deep.evaluateWithin 65) ∧
      ∃ error, deep.evaluate = .error error ∧ error.kind = .depthExceeded := by
  intro around deep faulty
  have failed :
      faulty.evaluateFor 10 = .error ((EvalError.invalidNumber "x").inContext faulty) := rfl
  have within : WithinLimit (faulty.evaluateFor 10) := by
    rw [failed]
    rintro _ same
    obtain rfl := Except.error.inj same
    decide
  have found : deep.value? = some (.ofBits 0x42820000) := by decide +kernel
  have arithmetic : deep.IsArithmetic := deep.isArithmetic_iff_exists_value?.mpr ⟨_, found⟩
  have depth : deep.depth = 64 := by decide +kernel
  obtain ⟨larger, small, -⟩ := evaluateFor_larger_limit faulty
  obtain ⟨-, -, above, below⟩ := evaluateFor_larger_limit deep
  exact ⟨⟨failed, larger (by decide) within, small (by decide)⟩, depth, arithmetic,
    above (by omega), below arithmetic (Nat.le_of_eq depth.symm)⟩

end PolishCalc.Expr
