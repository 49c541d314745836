import PolishCalc.Proofs.Evaluation.Folding
import PolishCalc.Proofs.Evaluation.Limit

/-!
# How deep evaluation goes

Evaluation is entered no deeper than at the level of the limit, where it fails
at once: an evaluator that may not go deeper gives the same result
(`Expr.evaluateUpTo_eq`). So what stands at that level or deeper does not count
(`Expr.Replaced.sameOutcome`).
-/

namespace PolishCalc

/-! ## An evaluator that stops -/

mutual

/-- Evaluation that has no outcome at all if it is entered at a level above `cap`. -/
def Expr.evaluateUpTo (cap limit level : Nat) : Expr → ExceptT EvalError Option Binary32
  | .leaf text =>
    if cap < level then .mk none
    else if level < limit then .mk (some (Expr.leafValue text))
    else throw (.depthExceeded limit)
  | .form head operands =>
    if cap < level then .mk none
    else if level < limit then do
      let operator ← Expr.headOperator head
      let values ← (operands.evaluateUpTo cap limit (level + 1)).adapt
        (·.inContext (.form head operands))
      return operator.apply values
    else throw (.depthExceeded limit)

def Operands.evaluateUpTo (cap limit level : Nat) :
    Operands → ExceptT EvalError Option (List Binary32)
  | .two first second => do
    let x ← first.evaluateUpTo cap limit level
    let y ← second.evaluateUpTo cap limit level
    return [x, y]
  | .more first rest => do
    let x ← first.evaluateUpTo cap limit level
    let xs ← rest.evaluateUpTo cap limit level
    return x :: xs

end

/-- The computation has an outcome. -/
theorem bind_mk_some {ε α β : Type} {x : Except ε α} {f : α → ExceptT ε Option β}
    {g : α → Except ε β} (h : ∀ a, f a = .mk (some (g a))) :
    (.mk (some x) : ExceptT ε Option α) >>= f = .mk (some (x >>= g)) := by
  cases x with
  | error => rfl
  | ok a => exact h a

mutual

theorem Expr.evaluateUpTo_eq {cap limit level : Nat} (e : Expr) (room : limit ≤ cap)
    (h : level ≤ cap) : e.evaluateUpTo cap limit level = .mk (some (e.evaluateAt limit level)) := by
  rw [← Nat.not_lt] at h
  cases e with
  | leaf text =>
    rw [Expr.evaluateUpTo, Expr.evaluateAt, if_neg h]
    split <;> rfl
  | form head operands =>
    rw [Expr.evaluateUpTo, Expr.evaluateAt, if_neg h]
    split
    next below =>
      rw [operands.evaluateUpTo_eq room (by omega)]
      exact bind_mk_some fun operator => bind_mk_some fun values => rfl
    next => rfl

theorem Operands.evaluateUpTo_eq {cap limit level : Nat} (operands : Operands) (room : limit ≤ cap)
    (h : level ≤ cap) :
    operands.evaluateUpTo cap limit level = .mk (some (operands.evaluateAt limit level)) := by
  cases operands with
  | two first second =>
    rw [Operands.evaluateUpTo, Operands.evaluateAt, first.evaluateUpTo_eq room h,
      second.evaluateUpTo_eq room h]
    exact bind_mk_some fun x => bind_mk_some fun y => rfl
  | more first rest =>
    rw [Operands.evaluateUpTo, Operands.evaluateAt, first.evaluateUpTo_eq room h,
      rest.evaluateUpTo_eq room h]
    exact bind_mk_some fun x => bind_mk_some fun xs => rfl

end

/-! ## What is too deep to count -/

theorem Operands.evaluateAt_eq_mapM (operands : Operands) (limit level : Nat) :
    operands.evaluateAt limit level = operands.toList.mapM (Expr.evaluateAt limit level) := by
  cases operands with
  | two first second => simp [evaluateAt, toList]
  | more first rest => simp [evaluateAt, toList, evaluateAt_eq_mapM rest]

theorem SameOutcome.mapM {α β : Type} {f : α → Except EvalError β} {a b : α}
    (h : SameOutcome (f a) (f b)) (before after : List α) :
    SameOutcome ((before ++ a :: after).mapM f) ((before ++ b :: after).mapM f) := by
  induction before with
  | nil =>
    simp only [List.nil_append, List.mapM_cons]
    exact h.bind fun x => .refl _
  | cons c before ih =>
    simp only [List.cons_append, List.mapM_cons]
    exact (SameOutcome.refl _).bind fun x => ih.bind fun xs => .refl _

/-- What is replaced is `level` levels deeper than evaluation begins. -/
theorem Expr.Replaced.sameOutcome {x z e e' : Expr} {level limit start : Nat}
    (h : Expr.Replaced x z level e e') (deep : limit ≤ start + level) :
    SameOutcome (e.evaluateAt limit start) (e'.evaluateAt limit start) := by
  induction h generalizing start with
  | here =>
    rw [Nat.add_zero] at deep
    rw [x.evaluateAt_of_le deep, z.evaluateAt_of_le deep]
    exact .refl _
  | @operand level head a b operands operands' before after was is _ ih =>
    rcases Nat.lt_or_ge start limit with below | above
    · have inside : SameOutcome (operands.evaluateAt limit (start + 1))
          (operands'.evaluateAt limit (start + 1)) := by
        rw [Operands.evaluateAt_eq_mapM, Operands.evaluateAt_eq_mapM, was, is]
        exact (ih (by omega)).mapM before after
      rw [Expr.evaluateAt, Expr.evaluateAt, if_pos below, if_pos below]
      exact (SameOutcome.refl _).bind fun operator =>
        (inside.mapError _ _).bind fun values => .refl _
    · rw [Expr.evaluateAt_of_le _ above, Expr.evaluateAt_of_le _ above]
      exact .refl _

end PolishCalc
