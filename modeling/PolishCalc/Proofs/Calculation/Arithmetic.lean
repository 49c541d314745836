import PolishCalc.Calculation
import PolishCalc.Proofs.Evaluation.Value
import PolishCalc.Proofs.Reading.Grammar

/-!
# Arithmetic

`Arithmetic depth tokens v` defines from the tokens alone which of them are
arithmetic, and with which value. They are the tokens of the expressions that
have a value (`arithmetic_iff_exists_expr`), so a text has a value exactly when
its tokens start with arithmetic (`calculate_eq_ok_iff`). Any other text has an
unknown operator or an invalid number (`calculate_arithmetic`).
-/

namespace PolishCalc

/-- The tokens are a number, or an operator and at least two operands between parentheses; at most
`depth` pairs of parentheses are inside one another. -/
inductive Arithmetic : Nat → List Token → Binary32 → Prop where
  | literal {depth : Nat} {text : String} {v : Binary32} : Expr.leafValue text = .ok v →
      Arithmetic depth [.atom text] v
  | group {depth : Nat} {operator : Operator} {operands : List (List Token × Binary32)} :
      2 ≤ operands.length → (∀ operand ∈ operands, Arithmetic depth operand.1 operand.2) →
      Arithmetic (depth + 1)
        (.openParen :: .atom operator.symbol :: (operands.flatMap Prod.fst ++ [.closeParen]))
        (operator.apply (operands.map Prod.snd))

variable {depth : Nat} {v : Binary32}

/-! ## Arithmetic and expressions -/

/-- An expression for each operand makes a list of expressions for all of them. -/
theorem exists_exprs_of_forall {operands : List (List Token × Binary32)}
    (h : ∀ operand ∈ operands, ∃ e : Expr,
      e.tokens = operand.1 ∧ e.depth ≤ depth ∧ e.value? = some operand.2) :
    ∃ es : List Expr, es.length = operands.length ∧ (∀ e ∈ es, e.depth ≤ depth) ∧
      es.flatMap Expr.tokens = operands.flatMap Prod.fst ∧
      es.mapM Expr.value? = some (operands.map Prod.snd) := by
  induction operands with
  | nil => exact ⟨[], rfl, by simp, rfl, rfl⟩
  | cons operand rest ih =>
    obtain ⟨here, later⟩ := List.forall_mem_cons.mp h
    obtain ⟨e, written, fits, found⟩ := here
    obtain ⟨es, length, allFit, allWritten, allFound⟩ := ih later
    refine ⟨e :: es, by simp [length], List.forall_mem_cons.mpr ⟨fits, allFit⟩, ?_, ?_⟩
    · rw [List.flatMap_cons, List.flatMap_cons, written, allWritten]
    · simp [found, allFound]

theorem Arithmetic.exists_expr {tokens : List Token} (h : Arithmetic depth tokens v) :
    ∃ e : Expr, e.tokens = tokens ∧ e.depth ≤ depth ∧ e.value? = some v := by
  induction h with
  | @literal _ text _ found =>
    exact ⟨.leaf text, rfl, Nat.zero_le _, Expr.value?_leaf_eq_some_iff.mpr found⟩
  | @group depth operator operands enough _ ih =>
    obtain ⟨es, length, fit, written, found⟩ := exists_exprs_of_forall ih
    have notFew : Operands.ofList? es ≠ none := by
      rw [ne_eq, Operands.ofList?_eq_none_iff]
      omega
    obtain ⟨rest, made⟩ := Option.ne_none_iff_exists'.mp notFew
    obtain rfl := Operands.toList_of_ofList? made
    refine ⟨.form (.leaf operator.symbol) rest, ?_, ?_, ?_⟩
    · rw [Expr.tokens, Operands.tokens_eq_flatMap, written]
      simp [Expr.tokens]
    · have := rest.depth_le_iff.mpr fit
      simp only [Expr.depth]
      omega
    · rw [← Operands.values?_eq_mapM] at found
      exact Expr.value?_form_eq_some_iff.mpr ⟨operator, _, rfl, found, rfl⟩

mutual

theorem Expr.arithmetic_tokens (e : Expr) {depth : Nat} {v : Binary32} (fits : e.depth ≤ depth)
    (found : e.value? = some v) : Arithmetic depth e.tokens v := by
  cases e with
  | leaf text => exact .literal (Expr.value?_leaf_eq_some_iff.mp found)
  | form head operands =>
    obtain ⟨operator, values, rfl, allFound, rfl⟩ := Expr.value?_form_eq_some_iff.mp found
    simp only [Expr.depth] at fits
    obtain ⟨inner, rfl⟩ : ∃ inner, depth = inner + 1 := ⟨depth - 1, by omega⟩
    obtain ⟨parts, enough, arithmetic, written, rfl⟩ :=
      operands.exists_arithmetic (by omega : operands.depth ≤ inner) allFound
    rw [Expr.tokens, ← written]
    exact .group enough arithmetic

/-- The operands that have values are arithmetic, one by one. -/
theorem Operands.exists_arithmetic (operands : Operands) {depth : Nat} {values : List Binary32}
    (fits : operands.depth ≤ depth) (found : operands.values? = some values) :
    ∃ parts : List (List Token × Binary32), 2 ≤ parts.length ∧
      (∀ part ∈ parts, Arithmetic depth part.1 part.2) ∧
      parts.flatMap Prod.fst = operands.tokens ∧ parts.map Prod.snd = values := by
  cases operands with
  | two first second =>
    obtain ⟨x, y, foundFirst, foundSecond, rfl⟩ := Operands.values?_two_eq_some_iff.mp found
    simp only [Operands.depth] at fits
    have here := first.arithmetic_tokens (by omega : first.depth ≤ depth) foundFirst
    have next := second.arithmetic_tokens (by omega : second.depth ≤ depth) foundSecond
    exact ⟨[(first.tokens, x), (second.tokens, y)], Nat.le_refl 2, by simp [here, next],
      by simp [Operands.tokens], rfl⟩
  | more first rest =>
    obtain ⟨x, xs, foundFirst, foundRest, rfl⟩ := Operands.values?_more_eq_some_iff.mp found
    simp only [Operands.depth] at fits
    have here := first.arithmetic_tokens (by omega : first.depth ≤ depth) foundFirst
    obtain ⟨parts, enough, later, written, rfl⟩ :=
      rest.exists_arithmetic (by omega : rest.depth ≤ depth) foundRest
    refine ⟨(first.tokens, x) :: parts, by simp; omega, ?_, ?_, rfl⟩
    · exact List.forall_mem_cons.mpr ⟨here, later⟩
    · rw [List.flatMap_cons, written, Operands.tokens]

end

theorem arithmetic_iff_exists_expr {tokens : List Token} :
    Arithmetic depth tokens v ↔
      ∃ e : Expr, e.tokens = tokens ∧ e.depth ≤ depth ∧ e.value? = some v := by
  constructor
  · exact Arithmetic.exists_expr
  · rintro ⟨e, rfl, fits, found⟩
    exact e.arithmetic_tokens fits found

/-! ## Calculation -/

namespace Expr

theorem read_eq_ok_iff {maxDepth : UInt64} {text : String} {e : Expr} :
    read maxDepth text = .ok e ↔
      e.depth ≤ maxDepth.toNat ∧ e.tokens <+: Token.tokenize text := by
  constructor
  · exact ofTokens_sound
  · rintro ⟨fits, rest, tokens⟩
    rw [read, ← tokens]
    exact ofTokens_tokens_append e rest fits

theorem depth_readOrPlaceholder (maxDepth : UInt64) (text : String) :
    (readOrPlaceholder maxDepth text).depth ≤ maxDepth.toNat := by
  unfold readOrPlaceholder
  split
  case h_1 e h => exact (read_eq_ok_iff.mp h).1
  case h_2 => exact Nat.zero_le _

/-- The placeholder adds no value. -/
theorem value?_readOrPlaceholder_eq_some_iff {maxDepth : UInt64} {text : String} {v : Binary32} :
    (readOrPlaceholder maxDepth text).value? = some v ↔
      ∃ e, read maxDepth text = .ok e ∧ e.value? = some v := by
  unfold readOrPlaceholder
  split
  case h_1 e h => simp [h]
  case h_2 error h => simp [h, value?_placeholder]

end Expr

/-- The default limit on nesting keeps below the one on levels. -/
theorem depth_readOrPlaceholder_lt (text : String) :
    (Expr.readOrPlaceholder Expr.defaultMaxDepth text).depth < Expr.defaultLimit := by
  have fits : _ ≤ 32 := Expr.depth_readOrPlaceholder Expr.defaultMaxDepth text
  have limit : Expr.defaultLimit = 64 := rfl
  omega

theorem calculate_eq_ok_iff {text : String} :
    calculate text = .ok v ↔
      ∃ tokens, tokens <+: Token.tokenize text ∧ Arithmetic 32 tokens v := by
  rw [calculate, Expr.evaluate, Expr.evaluateWithin_eq_ok_iff,
    and_iff_right (depth_readOrPlaceholder_lt text), Expr.value?_readOrPlaceholder_eq_some_iff]
  constructor
  · rintro ⟨e, accepted, found⟩
    obtain ⟨fits, starts⟩ := Expr.read_eq_ok_iff.mp accepted
    exact ⟨e.tokens, starts, arithmetic_iff_exists_expr.mpr ⟨e, rfl, fits, found⟩⟩
  · rintro ⟨tokens, starts, arithmetic⟩
    obtain ⟨e, rfl, fits, found⟩ := arithmetic_iff_exists_expr.mp arithmetic
    exact ⟨e, Expr.read_eq_ok_iff.mpr ⟨fits, starts⟩, found⟩

/-- The texts that have a value are those whose tokens start with arithmetic of at most 32 levels,
and the value is that of the arithmetic. All others have an unknown operator or an invalid
number. -/
theorem calculate_arithmetic (text : String) :
    (∀ v, calculate text = .ok v ↔
      ∃ tokens, tokens <+: Token.tokenize text ∧ Arithmetic 32 tokens v) ∧
    ((∃ v tokens, tokens <+: Token.tokenize text ∧ Arithmetic 32 tokens v) ∨
      ∃ error, calculate text = .error error ∧
        (error.kind = .unknownOperator ∨ error.kind = .invalidNumber)) := by
  refine ⟨fun v => calculate_eq_ok_iff, ?_⟩
  cases h : calculate text with
  | ok v => exact .inl ⟨v, calculate_eq_ok_iff.mp h⟩
  | error error =>
    exact .inr ⟨error, rfl, Expr.kind_of_evaluateWithin_error (depth_readOrPlaceholder_lt text) h⟩

end PolishCalc
