import PolishCalc.Expr.Evaluation
import PolishCalc.Proofs.Except

/-!
# The value of an expression

`Expr.value?` is the value that an expression has apart from any limit, if all
its heads spell operators and all the leaves that are operands spell numbers.
Evaluation finds it exactly when the expression is less deep than the limit
(`evaluateWithin_eq_ok_iff`), and below the limit it never fails for the depth
(`kind_of_evaluateWithin_error`).
-/

namespace PolishCalc

mutual

def Expr.value? : Expr → Option Binary32
  | .leaf text => (Expr.leafValue text).toOption
  | .form head operands => do
    let operator ← (Expr.headOperator head).toOption
    let values ← operands.values?
    return operator.apply values

/-- The values of the operands, in order. -/
def Operands.values? : Operands → Option (List Binary32)
  | .two first second => do
    let x ← first.value?
    let y ← second.value?
    return [x, y]
  | .more first rest => do
    let x ← first.value?
    let xs ← rest.values?
    return x :: xs

end

theorem Operands.values?_eq_mapM (operands : Operands) :
    operands.values? = operands.toList.mapM Expr.value? := by
  cases operands with
  | two first second =>
    simp [values?, toList, Option.bind_assoc]
  | more first rest => simp [values?, toList, values?_eq_mapM rest]

/-! ## One level of evaluation -/

namespace Expr

theorem headOperator_eq_ok_iff {head : Expr} {operator : Operator} :
    headOperator head = .ok operator ↔ head = .leaf operator.symbol := by
  cases head with
  | leaf text =>
    rw [leaf.injEq, eq_comm (a := text), ← Operator.ofSymbol?_eq_some_iff, headOperator]
    cases Operator.ofSymbol? text <;> simp
  | form head operands => simp [headOperator]

theorem eq_of_headOperator_error {head : Expr} {error : EvalError}
    (h : headOperator head = .error error) : error = .unknownOperator head.render := by
  simp only [headOperator] at h
  split at h
  · cases h
  · exact (Except.error.inj h).symm

theorem eq_of_leafValue_error {text : String} {error : EvalError}
    (h : leafValue text = .error error) : error = .invalidNumber text := by
  unfold leafValue at h
  split at h
  · cases h
  · exact (Except.error.inj h).symm

theorem kind_of_headOperator_error {head : Expr} {error : EvalError}
    (h : headOperator head = .error error) : error.kind = .unknownOperator := by
  rw [eq_of_headOperator_error h]
  rfl

theorem kind_of_leafValue_error {text : String} {error : EvalError}
    (h : leafValue text = .error error) : error.kind = .invalidNumber := by
  rw [eq_of_leafValue_error h]
  rfl

theorem value?_leaf_eq_some_iff {text : String} {v : Binary32} :
    (leaf text).value? = some v ↔ leafValue text = .ok v := by
  rw [value?, Except.toOption_eq_some_iff]

theorem value?_form_eq_some_iff {head : Expr} {operands : Operands} {v : Binary32} :
    (form head operands).value? = some v ↔ ∃ (operator : Operator) (values : List Binary32),
      head = .leaf operator.symbol ∧ operands.values? = some values ∧
        operator.apply values = v := by
  simp [value?, Option.bind_eq_some_iff, Except.toOption_eq_some_iff, headOperator_eq_ok_iff]

theorem evaluateAt_leaf_eq_ok_iff {limit level : Nat} {text : String} {v : Binary32} :
    (leaf text).evaluateAt limit level = .ok v ↔ level < limit ∧ leafValue text = .ok v := by
  rw [evaluateAt]
  split <;> simp [*]

theorem evaluateAt_form_eq_ok_iff {limit level : Nat} {head : Expr} {operands : Operands}
    {v : Binary32} :
    (form head operands).evaluateAt limit level = .ok v ↔
      level < limit ∧ ∃ (operator : Operator) (values : List Binary32),
        head = .leaf operator.symbol ∧ operands.evaluateAt limit (level + 1) = .ok values ∧
          operator.apply values = v := by
  rw [evaluateAt]
  split <;> simp [*, Except.bind_eq_ok_iff, Except.mapError_eq_ok_iff, headOperator_eq_ok_iff,
    pure, Except.pure]

theorem evaluateAt_form_eq_error_iff {limit level : Nat} {head : Expr} {operands : Operands}
    {error : EvalError} (h : level < limit) :
    (form head operands).evaluateAt limit level = .error error ↔
      headOperator head = .error error ∨ ∃ operator inner, headOperator head = .ok operator ∧
        operands.evaluateAt limit (level + 1) = .error inner ∧
          inner.inContext (form head operands) = error := by
  simp [evaluateAt, h, Except.bind_eq_error_iff, Except.mapError_eq_error_iff, pure, Except.pure]

end Expr

namespace Operands

theorem evaluateAt_two_eq_ok_iff {limit level : Nat} {first second : Expr}
    {values : List Binary32} :
    (two first second).evaluateAt limit level = .ok values ↔ ∃ x y,
      first.evaluateAt limit level = .ok x ∧ second.evaluateAt limit level = .ok y ∧
        [x, y] = values := by
  simp [evaluateAt, Except.bind_eq_ok_iff, pure, Except.pure]

theorem evaluateAt_two_eq_error_iff {limit level : Nat} {first second : Expr}
    {error : EvalError} :
    (two first second).evaluateAt limit level = .error error ↔
      first.evaluateAt limit level = .error error ∨ ∃ x,
        first.evaluateAt limit level = .ok x ∧ second.evaluateAt limit level = .error error := by
  simp [evaluateAt, Except.bind_eq_error_iff, pure, Except.pure]

theorem evaluateAt_more_eq_ok_iff {limit level : Nat} {first : Expr} {rest : Operands}
    {values : List Binary32} :
    (more first rest).evaluateAt limit level = .ok values ↔ ∃ x xs,
      first.evaluateAt limit level = .ok x ∧ rest.evaluateAt limit level = .ok xs ∧
        x :: xs = values := by
  simp [evaluateAt, Except.bind_eq_ok_iff, pure, Except.pure]

theorem evaluateAt_more_eq_error_iff {limit level : Nat} {first : Expr} {rest : Operands}
    {error : EvalError} :
    (more first rest).evaluateAt limit level = .error error ↔
      first.evaluateAt limit level = .error error ∨ ∃ x,
        first.evaluateAt limit level = .ok x ∧ rest.evaluateAt limit level = .error error := by
  simp [evaluateAt, Except.bind_eq_error_iff, pure, Except.pure]

/-- Operands fail with the error of one of them. -/
theorem exists_mem_of_evaluateAt_error {limit level : Nat} {operands : Operands}
    {error : EvalError} (h : operands.evaluateAt limit level = .error error) :
    ∃ x ∈ operands.toList, x.evaluateAt limit level = .error error := by
  cases operands with
  | two first second =>
    rcases evaluateAt_two_eq_error_iff.mp h with failed | ⟨_, -, failed⟩
    · exact ⟨first, by simp [toList], failed⟩
    · exact ⟨second, by simp [toList], failed⟩
  | more first rest =>
    rcases evaluateAt_more_eq_error_iff.mp h with failed | ⟨_, -, failed⟩
    · exact ⟨first, by simp [toList], failed⟩
    · obtain ⟨x, mem, failed⟩ := exists_mem_of_evaluateAt_error failed
      exact ⟨x, by simp [toList, mem], failed⟩

theorem values?_two_eq_some_iff {first second : Expr} {values : List Binary32} :
    (two first second).values? = some values ↔ ∃ x y,
      first.value? = some x ∧ second.value? = some y ∧ [x, y] = values := by
  simp [values?, Option.bind_eq_some_iff]

theorem values?_more_eq_some_iff {first : Expr} {rest : Operands} {values : List Binary32} :
    (more first rest).values? = some values ↔ ∃ x xs,
      first.value? = some x ∧ rest.values? = some xs ∧ x :: xs = values := by
  simp [values?, Option.bind_eq_some_iff]

theorem exists_values?_iff (operands : Operands) :
    (∃ values, operands.values? = some values) ↔
      ∀ x ∈ operands.toList, ∃ v, x.value? = some v := by
  cases operands with
  | two first second =>
    simp only [values?_two_eq_some_iff, toList, List.forall_mem_cons, List.not_mem_nil,
      false_implies, implies_true, and_true]
    constructor
    · rintro ⟨_, x, y, foundFirst, foundSecond, -⟩
      exact ⟨⟨x, foundFirst⟩, y, foundSecond⟩
    · rintro ⟨⟨x, foundFirst⟩, y, foundSecond⟩
      exact ⟨_, x, y, foundFirst, foundSecond, rfl⟩
  | more first rest =>
    rw [toList, List.forall_mem_cons, ← exists_values?_iff rest]
    simp only [values?_more_eq_some_iff]
    constructor
    · rintro ⟨_, x, xs, foundFirst, foundRest, -⟩
      exact ⟨⟨x, foundFirst⟩, xs, foundRest⟩
    · rintro ⟨⟨x, foundFirst⟩, xs, foundRest⟩
      exact ⟨_, x, xs, foundFirst, foundRest, rfl⟩

end Operands

/-! ## Success and failure below a limit -/

mutual

theorem Expr.evaluateAt_eq_ok_iff {limit : Nat} (e : Expr) (level : Nat) {v : Binary32} :
    e.evaluateAt limit level = .ok v ↔ level + e.depth < limit ∧ e.value? = some v := by
  cases e with
  | leaf text =>
    rw [Expr.evaluateAt_leaf_eq_ok_iff, Expr.value?_leaf_eq_some_iff, Expr.depth, Nat.add_zero]
  | form head operands =>
    rw [Expr.evaluateAt_form_eq_ok_iff, Expr.value?_form_eq_some_iff]
    constructor
    · rintro ⟨-, operator, values, rfl, evaluated, applied⟩
      obtain ⟨fits, found⟩ := (operands.evaluateAt_eq_ok_iff (level + 1)).mp evaluated
      refine ⟨?_, operator, values, rfl, found, applied⟩
      simp only [Expr.depth]
      omega
    · rintro ⟨fits, operator, values, rfl, found, applied⟩
      simp only [Expr.depth] at fits
      have inner : level + 1 + operands.depth < limit := by omega
      refine ⟨by omega, operator, values, rfl, ?_, applied⟩
      exact (operands.evaluateAt_eq_ok_iff (level + 1)).mpr ⟨inner, found⟩

theorem Operands.evaluateAt_eq_ok_iff {limit : Nat} (operands : Operands) (level : Nat)
    {values : List Binary32} :
    operands.evaluateAt limit level = .ok values ↔
      level + operands.depth < limit ∧ operands.values? = some values := by
  cases operands with
  | two first second =>
    rw [Operands.evaluateAt_two_eq_ok_iff, Operands.values?_two_eq_some_iff, Operands.depth]
    simp only [first.evaluateAt_eq_ok_iff level, second.evaluateAt_eq_ok_iff level]
    constructor
    · rintro ⟨x, y, ⟨firstFits, foundFirst⟩, ⟨secondFits, foundSecond⟩, rfl⟩
      exact ⟨by omega, x, y, foundFirst, foundSecond, rfl⟩
    · rintro ⟨fits, x, y, foundFirst, foundSecond, rfl⟩
      exact ⟨x, y, ⟨by omega, foundFirst⟩, ⟨by omega, foundSecond⟩, rfl⟩
  | more first rest =>
    rw [Operands.evaluateAt_more_eq_ok_iff, Operands.values?_more_eq_some_iff, Operands.depth]
    simp only [first.evaluateAt_eq_ok_iff level, rest.evaluateAt_eq_ok_iff level]
    constructor
    · rintro ⟨x, xs, ⟨firstFits, foundFirst⟩, ⟨restFit, foundRest⟩, rfl⟩
      exact ⟨by omega, x, xs, foundFirst, foundRest, rfl⟩
    · rintro ⟨fits, x, xs, foundFirst, foundRest, rfl⟩
      exact ⟨x, xs, ⟨by omega, foundFirst⟩, ⟨by omega, foundRest⟩, rfl⟩

end

mutual

/-- Below the limit no error is about the depth. -/
theorem Expr.kind_of_evaluateAt_error {limit : Nat} (e : Expr) (level : Nat) {error : EvalError}
    (fits : level + e.depth < limit) (h : e.evaluateAt limit level = .error error) :
    error.kind = .unknownOperator ∨ error.kind = .invalidNumber := by
  have below : level < limit := by omega
  cases e with
  | leaf text =>
    simp only [Expr.evaluateAt, below, ↓reduceIte] at h
    exact .inr (Expr.kind_of_leafValue_error h)
  | form head operands =>
    simp only [Expr.depth] at fits
    rcases (Expr.evaluateAt_form_eq_error_iff below).mp h with unknown | ⟨_, inner, -, failed, rfl⟩
    · exact .inl (Expr.kind_of_headOperator_error unknown)
    · rw [EvalError.kind_inContext]
      exact operands.kind_of_evaluateAt_error (level + 1) (by omega) failed

theorem Operands.kind_of_evaluateAt_error {limit : Nat} (operands : Operands) (level : Nat)
    {error : EvalError} (fits : level + operands.depth < limit)
    (h : operands.evaluateAt limit level = .error error) :
    error.kind = .unknownOperator ∨ error.kind = .invalidNumber := by
  cases operands with
  | two first second =>
    simp only [Operands.depth] at fits
    rcases Operands.evaluateAt_two_eq_error_iff.mp h with failed | ⟨x, -, failed⟩
    · exact first.kind_of_evaluateAt_error level (by omega) failed
    · exact second.kind_of_evaluateAt_error level (by omega) failed
  | more first rest =>
    simp only [Operands.depth] at fits
    rcases Operands.evaluateAt_more_eq_error_iff.mp h with failed | ⟨x, -, failed⟩
    · exact first.kind_of_evaluateAt_error level (by omega) failed
    · exact rest.kind_of_evaluateAt_error level (by omega) failed

end

namespace Expr

/-- The placeholder spells no number. -/
theorem value?_placeholder : placeholder.value? = none := by
  decide

theorem evaluateWithin_placeholder (limit : Nat) :
    placeholder.evaluateWithin limit = .error (.unknownOperator "ERROR") := by
  rw [evaluateWithin, if_pos (by decide)]
  rfl

theorem evaluateWithin_form (limit : Nat) (head : Expr) (operands : Operands) :
    (form head operands).evaluateWithin limit = (form head operands).evaluateAt limit 0 := by
  rw [evaluateWithin, if_neg (by simp [isPlaceholder, placeholder])]

theorem evaluateWithin_eq_ok_iff {limit : Nat} {e : Expr} {v : Binary32} :
    e.evaluateWithin limit = .ok v ↔ e.depth < limit ∧ e.value? = some v := by
  unfold evaluateWithin
  split
  case isTrue h =>
    obtain rfl : e = placeholder := by simpa [isPlaceholder] using h
    simp [value?_placeholder]
  case isFalse =>
    rw [evaluateAt_eq_ok_iff e 0, Nat.zero_add]

theorem kind_of_evaluateWithin_error {limit : Nat} {e : Expr} {error : EvalError}
    (fits : e.depth < limit) (h : e.evaluateWithin limit = .error error) :
    error.kind = .unknownOperator ∨ error.kind = .invalidNumber := by
  unfold evaluateWithin at h
  split at h
  · obtain rfl := Except.error.inj h
    exact .inl rfl
  · exact kind_of_evaluateAt_error e 0 (by omega) h

end Expr

end PolishCalc
