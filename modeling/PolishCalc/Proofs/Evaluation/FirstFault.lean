import PolishCalc.Proofs.Evaluation.Literal
import PolishCalc.Proofs.Evaluation.Value

/-!
# The first fault

Evaluation comes to an expression before it comes to its operands, and to those
from left to right; it never comes to a head. `Expr.visits` lists what it would
come to if nothing failed. One law for each way to compose results
(`ReportsFirst.bind`, `ReportsFirst.cons`) shows that evaluation reports the
error of the first visit that fails, and that it has a value if there is none
(`Expr.evaluateFor_first_fault`).
-/

namespace PolishCalc

/-! ## Visits -/

/-- An expression that evaluation comes to. -/
structure Visit where
  /-- How many forms are around the expression. -/
  level : Nat
  /-- The innermost one of them. -/
  enclosing : Option Expr
  expr : Expr
  deriving DecidableEq, Repr

mutual

/-- The visits of an expression and of all that operand positions lead to, in order. -/
def Expr.visits (level : Nat) (enclosing : Option Expr) : Expr → List Visit
  | .leaf text => [⟨level, enclosing, .leaf text⟩]
  | .form head operands =>
    ⟨level, enclosing, .form head operands⟩ ::
      operands.visits (level + 1) (some (.form head operands))

def Operands.visits (level : Nat) (enclosing : Option Expr) : Operands → List Visit
  | .two first second => first.visits level enclosing ++ second.visits level enclosing
  | .more first rest => first.visits level enclosing ++ rest.visits level enclosing

end

/-- A leaf that is not the text of a numeral, or a form whose head is none of the four symbols. -/
def Expr.IsFaulty : Expr → Prop
  | .leaf text => ¬∃ n : Numeral, n.text = text
  | .form head _ => head ∉ [.leaf "+", .leaf "-", .leaf "*", .leaf "/"]

instance (e : Expr) : Decidable e.IsFaulty :=
  match e with
  | .leaf _ => decidable_of_iff _ Decimal.ofString?_eq_none_iff
  | .form head _ =>
    inferInstanceAs (Decidable (head ∉ [.leaf "+", .leaf "-", .leaf "*", .leaf "/"]))

namespace Visit

/-- The expression is too deep, or it is at fault itself. -/
def Fails (limit : Nat) (visit : Visit) : Prop :=
  limit ≤ visit.level ∨ visit.expr.IsFaulty

instance (limit : Nat) (visit : Visit) : Decidable (visit.Fails limit) :=
  inferInstanceAs (Decidable (limit ≤ visit.level ∨ visit.expr.IsFaulty))

theorem not_fails_iff {limit : Nat} {visit : Visit} :
    ¬ visit.Fails limit ↔ visit.level < limit ∧ ¬ visit.expr.IsFaulty := by
  rw [Fails, not_or, Nat.not_le]

/-- The error to report if the visit fails. The level counts before the expression itself. -/
def error (limit : Nat) (visit : Visit) : EvalError :=
  if limit ≤ visit.level then
    { kind := .depthExceeded
      message := "evaluation depth limit exceeded (max: " ++ toString limit ++ ")"
      context := visit.enclosing.map Expr.render }
  else
    match visit.expr with
    | .leaf text =>
      { kind := .invalidNumber
        message := "invalid number " ++ text
        context := visit.enclosing.map Expr.render }
    | .form head _ =>
      { kind := .unknownOperator
        message := "unknown operator " ++ head.render
        context := visit.enclosing.map Expr.render }

end Visit

/-- The first visit that fails when a whole expression is evaluated. -/
def Expr.firstFault (limit : Nat) (e : Expr) : Option Visit :=
  (e.visits 0 none).find? (·.Fails limit)

/-! ## Results that report the first fault -/

/-- The error as seen from outside the enclosing form, if there is one. -/
def EvalError.seenOutside (error : EvalError) : Option Expr → EvalError
  | none => error
  | some form => error.inContext form

theorem EvalError.seenOutside_inContext (error : EvalError) (form : Expr)
    (enclosing : Option Expr) :
    (error.inContext form).seenOutside enclosing = error.inContext form := by
  cases enclosing with
  | none => rfl
  | some outer => cases h : error.context <;> simp [seenOutside, inContext, h]

/-- Where a visit fails, nothing is known yet of the forms around it. -/
theorem Visit.seenOutside_error (limit level : Nat) (e : Expr) (enclosing : Option Expr) :
    (error limit ⟨level, none, e⟩).seenOutside enclosing = error limit ⟨level, enclosing, e⟩ := by
  cases enclosing with
  | none => rfl
  | some form =>
    unfold error
    dsimp only
    split
    · rfl
    · cases e <;> rfl

/-- The result is the error of the first visit that fails, or a value if none does. -/
def ReportsFirst {α : Type} (limit : Nat) (enclosing : Option Expr) (visits : List Visit) :
    Except EvalError α → Prop
  | .ok _ => visits.find? (·.Fails limit) = none
  | .error error => ∃ visit, visits.find? (·.Fails limit) = some visit ∧
      error.seenOutside enclosing = visit.error limit

namespace ReportsFirst

variable {α β : Type} {limit : Nat} {enclosing : Option Expr} {visits more : List Visit}
  {x : Except EvalError α}

theorem bind {f : α → Except EvalError β} (h : ReportsFirst limit enclosing visits x)
    (next : ∀ a, ReportsFirst limit enclosing more (f a)) :
    ReportsFirst limit enclosing (visits ++ more) (x >>= f) := by
  cases x with
  | error error =>
    obtain ⟨visit, first, same⟩ := h
    exact ⟨visit, by rw [List.find?_append, first, Option.some_or], same⟩
  | ok a =>
    have clear : visits.find? (·.Fails limit) = none := h
    have later := next a
    show ReportsFirst limit enclosing (visits ++ more) (f a)
    cases result : f a <;> rw [result] at later <;>
      simpa [ReportsFirst, List.find?_append, clear] using later

theorem map (f : α → β) (h : ReportsFirst limit enclosing visits x) :
    ReportsFirst limit enclosing visits (x >>= fun a => pure (f a)) := by
  cases x <;> exact h

theorem mapError {form : Expr} (h : ReportsFirst limit (some form) visits x) :
    ReportsFirst limit enclosing visits (x.mapError (·.inContext form)) := by
  cases x with
  | ok a => exact h
  | error error =>
    obtain ⟨visit, first, same⟩ := h
    exact ⟨visit, first, (error.seenOutside_inContext form enclosing).trans same⟩

theorem of_fails {level : Nat} {e : Expr} (h : Visit.Fails limit ⟨level, enclosing, e⟩) :
    ReportsFirst (α := α) limit enclosing (⟨level, enclosing, e⟩ :: more)
      (.error (Visit.error limit ⟨level, none, e⟩)) :=
  ⟨_, List.find?_cons_of_pos (by simpa using h), Visit.seenOutside_error limit level e enclosing⟩

theorem cons {visit : Visit} (h : ¬ visit.Fails limit)
    (later : ReportsFirst limit enclosing more x) :
    ReportsFirst limit enclosing (visit :: more) x := by
  cases x <;> simpa [ReportsFirst, h] using later

end ReportsFirst

/-! ## Evaluation -/

namespace Expr

theorem isFaulty_leaf_iff {text : String} :
    (leaf text).IsFaulty ↔ leafValue text = .error (.invalidNumber text) := by
  constructor
  · exact leafValue_of_no_numeral
  · rintro failed ⟨n, rfl⟩
    rw [leafValue_text] at failed
    cases failed

theorem mem_symbols_iff {head : Expr} :
    head ∈ [leaf "+", leaf "-", leaf "*", leaf "/"] ↔
      ∃ operator : Operator, head = leaf operator.symbol := by
  constructor
  · intro mem
    simp only [List.mem_cons, List.not_mem_nil, or_false] at mem
    rcases mem with rfl | rfl | rfl | rfl
    exacts [⟨.add, rfl⟩, ⟨.subtract, rfl⟩, ⟨.multiply, rfl⟩, ⟨.divide, rfl⟩]
  · rintro ⟨operator, rfl⟩
    cases operator <;> decide

theorem isFaulty_form_iff {head : Expr} {operands : Operands} :
    (form head operands).IsFaulty ↔
      headOperator head = .error (.unknownOperator head.render) := by
  rw [IsFaulty, mem_symbols_iff]
  constructor
  · intro unknown
    cases found : headOperator head with
    | ok operator => exact absurd ⟨operator, headOperator_eq_ok_iff.mp found⟩ unknown
    | error error => rw [eq_of_headOperator_error found]
  · rintro failed ⟨operator, spelled⟩
    rw [headOperator_eq_ok_iff.mpr spelled] at failed
    cases failed

variable {limit level : Nat} {enclosing : Option Expr}

theorem evaluateAt_of_fails {e : Expr} (h : Visit.Fails limit ⟨level, enclosing, e⟩) :
    e.evaluateAt limit level = .error (Visit.error limit ⟨level, none, e⟩) := by
  by_cases deep : limit ≤ level
  · have above : ¬ level < limit := by omega
    cases e <;> rw [evaluateAt, if_neg above, Visit.error, if_pos deep] <;> rfl
  · have below : level < limit := by omega
    have faulty : e.IsFaulty := h.resolve_left deep
    cases e with
    | leaf text =>
      rw [evaluateAt, if_pos below, isFaulty_leaf_iff.mp faulty, Visit.error, if_neg deep]
      rfl
    | form head operands =>
      rw [evaluateAt, if_pos below, isFaulty_form_iff.mp faulty, Visit.error, if_neg deep]
      rfl

theorem exists_evaluateAt_leaf_of_not_fails {text : String}
    (h : ¬ Visit.Fails limit ⟨level, enclosing, leaf text⟩) :
    ∃ v, (leaf text).evaluateAt limit level = .ok v := by
  obtain ⟨below, sound⟩ := Visit.not_fails_iff.mp h
  rw [evaluateAt, if_pos below]
  cases value : leafValue text with
  | ok v => exact ⟨v, rfl⟩
  | error error =>
    rw [eq_of_leafValue_error value] at value
    exact absurd (isFaulty_leaf_iff.mpr value) sound

/-- What evaluation does at a form once its visit has not failed. -/
theorem evaluateAt_form_of_not_fails {head : Expr} {operands : Operands}
    (h : ¬ Visit.Fails limit ⟨level, enclosing, form head operands⟩) :
    ∃ operator : Operator, (form head operands).evaluateAt limit level =
      ((operands.evaluateAt limit (level + 1)).mapError (·.inContext (form head operands)) >>=
        fun values => pure (operator.apply values)) := by
  obtain ⟨below, sound⟩ := Visit.not_fails_iff.mp h
  cases found : headOperator head with
  | ok operator =>
    refine ⟨operator, ?_⟩
    rw [evaluateAt, if_pos below, found]
    rfl
  | error error =>
    rw [eq_of_headOperator_error found] at found
    exact absurd (isFaulty_form_iff.mpr found) sound

end Expr

mutual

theorem Expr.reportsFirst_evaluateAt (limit : Nat) (e : Expr) (level : Nat)
    (enclosing : Option Expr) :
    ReportsFirst limit enclosing (e.visits level enclosing) (e.evaluateAt limit level) := by
  by_cases fails : Visit.Fails limit ⟨level, enclosing, e⟩
  · rw [Expr.evaluateAt_of_fails fails]
    cases e <;> exact .of_fails fails
  · cases e with
    | leaf text =>
      obtain ⟨v, value⟩ := Expr.exists_evaluateAt_leaf_of_not_fails fails
      rw [value]
      exact .cons fails rfl
    | form head operands =>
      obtain ⟨operator, evaluated⟩ := Expr.evaluateAt_form_of_not_fails fails
      have inner := operands.reportsFirst_evaluateAt limit (level + 1) (some (.form head operands))
      rw [evaluated]
      -- The form is now the context of all errors inside it, so what encloses it counts no more.
      exact .cons fails (inner.mapError.map operator.apply)

theorem Operands.reportsFirst_evaluateAt (limit : Nat) (operands : Operands) (level : Nat)
    (enclosing : Option Expr) :
    ReportsFirst limit enclosing (operands.visits level enclosing)
      (operands.evaluateAt limit level) := by
  cases operands with
  | two first second =>
    exact (first.reportsFirst_evaluateAt limit level enclosing).bind fun x =>
      (second.reportsFirst_evaluateAt limit level enclosing).map fun y => [x, y]
  | more first rest =>
    exact (first.reportsFirst_evaluateAt limit level enclosing).bind fun x =>
      (rest.reportsFirst_evaluateAt limit level enclosing).map fun xs => x :: xs

end

namespace Expr

variable {limit : Nat} {e : Expr}

theorem reportsFirst_evaluateWithin (h : e ≠ .leaf "ERROR") (limit : Nat) :
    ReportsFirst limit none (e.visits 0 none) (e.evaluateWithin limit) := by
  have regular : ¬ e.isPlaceholder = true := fun same => h (of_decide_eq_true same)
  rw [evaluateWithin, if_neg regular]
  exact e.reportsFirst_evaluateAt limit 0 none

theorem evaluateWithin_eq_error_iff (h : e ≠ .leaf "ERROR") {error : EvalError} :
    e.evaluateWithin limit = .error error ↔
      ∃ visit, e.firstFault limit = some visit ∧ error = visit.error limit := by
  have reported := reportsFirst_evaluateWithin h limit
  cases result : e.evaluateWithin limit with
  | ok v =>
    rw [result] at reported
    have clear : e.firstFault limit = none := reported
    simp [clear]
  | error failure =>
    rw [result] at reported
    obtain ⟨visit, first, same⟩ : ∃ visit, e.firstFault limit = some visit ∧
      failure = visit.error limit := reported
    simp [first, same, eq_comm]

theorem exists_evaluateWithin_eq_ok_iff (h : e ≠ .leaf "ERROR") :
    (∃ v, e.evaluateWithin limit = .ok v) ↔ ∀ visit ∈ e.visits 0 none, ¬ visit.Fails limit := by
  have clear_iff : e.firstFault limit = none ↔ ∀ visit ∈ e.visits 0 none, ¬ visit.Fails limit := by
    simp [firstFault]
  rw [← clear_iff]
  have reported := reportsFirst_evaluateWithin h limit
  cases result : e.evaluateWithin limit with
  | ok v =>
    rw [result] at reported
    exact ⟨fun _ => reported, fun _ => ⟨v, rfl⟩⟩
  | error failure =>
    obtain ⟨visit, first, -⟩ := (evaluateWithin_eq_error_iff h).mp result
    simp [first]

/-- The error is that of the first visit that fails, in the order of evaluation, with the enclosing
form as its context. There is a value exactly if no visit fails. -/
theorem evaluateFor_first_fault {e : Expr} (h : e ≠ .leaf "ERROR") (maxDepth : UInt64) :
    let limit := max 64 (min (maxDepth.toNat + 1) (UInt64.size - 1))
    (∀ error, e.evaluateFor maxDepth = .error error ↔
      ∃ visit, e.firstFault limit = some visit ∧ error = visit.error limit) ∧
    ((∃ v, e.evaluateFor maxDepth = .ok v) ↔ ∀ visit ∈ e.visits 0 none, ¬ visit.Fails limit) :=
  ⟨fun _ => evaluateWithin_eq_error_iff h, exists_evaluateWithin_eq_ok_iff h⟩

/-- Faults further to the right are never found, however few forms are around them. In the deep
expression even the number `1` is too deep, and an unknown operator is found before any of its
operands. -/
theorem evaluateFor_first_fault_deep :
    let inner : Expr := .form (.leaf "*") (.two (.leaf "2") (.leaf "x"))
    let mixed : Expr := .form (.leaf "+")
      (.more inner (.two (.leaf "y") (.form inner (.two inner inner))))
    let around (e : Expr) : Expr := .form (.leaf "+") (.two e (.leaf "z"))
    let deep := Nat.repeat around 64 (.leaf "1")
    let unknown := around (.form inner (.two inner inner))
    (mixed ≠ .leaf "ERROR" ∧ mixed.evaluateFor 3 = .error {
      kind := .invalidNumber, message := "invalid number x", context := some "(* 2 x)" }) ∧
    (deep ≠ .leaf "ERROR" ∧ deep.evaluateFor 3 = .error {
      kind := .depthExceeded, message := "evaluation depth limit exceeded (max: 64)",
      context := some "(+ 1 z)" }) ∧
    unknown ≠ .leaf "ERROR" ∧ unknown.evaluateFor 3 = .error {
      kind := .unknownOperator, message := "unknown operator (* 2 x)",
      context := some "(+ ((* 2 x) (* 2 x) (* 2 x)) z)" } := by
  intro inner mixed around deep unknown
  have regular : mixed ≠ .leaf "ERROR" := by decide
  have regular' : deep ≠ .leaf "ERROR" := by decide
  have regular'' : unknown ≠ .leaf "ERROR" := by decide
  have first : mixed.firstFault 64 = some ⟨2, some inner, .leaf "x"⟩ := by decide
  have first' : deep.firstFault 64 = some ⟨64, some (around (.leaf "1")), .leaf "1"⟩ := by
    decide +kernel
  have first'' : unknown.firstFault 64 =
      some ⟨1, some unknown, .form inner (.two inner inner)⟩ := by
    decide
  exact ⟨⟨regular, ((evaluateFor_first_fault regular 3).1 _).mpr ⟨_, first, by decide⟩⟩,
    ⟨regular', ((evaluateFor_first_fault regular' 3).1 _).mpr ⟨_, first', by decide⟩⟩,
    regular'', ((evaluateFor_first_fault regular'' 3).1 _).mpr ⟨_, first'', by decide⟩⟩

end Expr

end PolishCalc
