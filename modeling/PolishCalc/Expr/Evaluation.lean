import PolishCalc.Binary32.Decimal
import PolishCalc.Expr.Basic
import PolishCalc.Operator

/-!
# Evaluating expressions

A leaf has the value of the numeric literal it spells. A form has the value of
the operator its head spells on the values of its operands. The first fault
ends evaluation: at each expression first its level is tested, then its own
text or head, and then come its operands from left to right. A head is never
evaluated. An evaluation error says why an expression has no value and, if the
fault lies inside a form, which form directly encloses it.

The level of an expression is the number of forms around it. Only levels below
the limit are evaluated.
-/

namespace PolishCalc

/-! ## Evaluation errors -/

inductive EvalError.Kind where
  /-- The head of a form is not the symbol of an operator. -/
  | unknownOperator
  /-- A leaf in the place of a number is not a numeric literal. -/
  | invalidNumber
  /-- An expression lies inside too many forms. -/
  | depthExceeded
  deriving DecidableEq, Repr

structure EvalError where
  kind : EvalError.Kind
  message : String
  /-- The text of the form in whose operand the fault lies. -/
  context : Option String
  deriving DecidableEq, Repr

namespace EvalError

def withMessage (kind : Kind) (message : String) : EvalError :=
  { kind, message, context := none }

def unknownOperator (head : String) : EvalError :=
  withMessage .unknownOperator ("unknown operator " ++ head)

def invalidNumber (text : String) : EvalError :=
  withMessage .invalidNumber ("invalid number " ++ text)

/-- The message names the number of levels that are evaluated. -/
def depthExceeded (limit : Nat) : EvalError :=
  withMessage .depthExceeded ("evaluation depth limit exceeded (max: " ++ toString limit ++ ")")

/-- The error as seen from outside `form`: an error that lies in no form yet now lies in this
one. -/
def inContext (error : EvalError) (form : Expr) : EvalError :=
  match error.context with
  | none => { error with context := some form.render }
  | some _ => error

@[simp] theorem kind_inContext (error : EvalError) (form : Expr) :
    (error.inContext form).kind = error.kind := by
  unfold inContext
  split <;> rfl

@[simp] theorem message_inContext (error : EvalError) (form : Expr) :
    (error.inContext form).message = error.message := by
  unfold inContext
  split <;> rfl

theorem context_inContext_ne_none (error : EvalError) (form : Expr) :
    (error.inContext form).context ≠ none := by
  cases h : error.context <;> simp [inContext, h]

end EvalError

/-! ## One level after the other -/

/-- The number that a leaf spells. -/
def Expr.leafValue (text : String) : Except EvalError Binary32 :=
  match Decimal.ofString? text with
  | some decimal => .ok (.ofDecimal decimal)
  | none => .error (.invalidNumber text)

/-- The operator that the head of a form spells. -/
def Expr.headOperator (head : Expr) : Except EvalError Operator :=
  let operator :=
    match head with
    | .leaf symbol => Operator.ofSymbol? symbol
    | .form _ _ => none
  match operator with
  | some operator => .ok operator
  | none => .error (.unknownOperator head.render)

mutual

/-- The value of an expression at a level. -/
def Expr.evaluateAt (limit level : Nat) : Expr → Except EvalError Binary32
  | .leaf text =>
    if level < limit then Expr.leafValue text
    else .error (.depthExceeded limit)
  | .form head operands =>
    if level < limit then do
      let operator ← Expr.headOperator head
      let values ← (operands.evaluateAt limit (level + 1)).mapError
        (·.inContext (.form head operands))
      return operator.apply values
    else .error (.depthExceeded limit)

/-- The values of operands that are all at one level. -/
def Operands.evaluateAt (limit level : Nat) : Operands → Except EvalError (List Binary32)
  | .two first second => do
    let x ← first.evaluateAt limit level
    let y ← second.evaluateAt limit level
    return [x, y]
  | .more first rest => do
    let x ← first.evaluateAt limit level
    let xs ← rest.evaluateAt limit level
    return x :: xs

end

/-! ## Whole expressions -/

namespace Expr

/-- The limit on levels if nothing else is asked for. -/
def defaultLimit : Nat := 64

/-- The limit on levels for expressions that were read with `maxDepth`. Their leaves are at levels
up to `maxDepth`, so the limit is one more, within what 64 bits can count. -/
def limitFor (maxDepth : UInt64) : Nat :=
  max defaultLimit (min (maxDepth.toNat + 1) (UInt64.size - 1))

/-- The value of a whole expression. The placeholder has none, whatever the limit. -/
def evaluateWithin (limit : Nat) (e : Expr) : Except EvalError Binary32 :=
  if e.isPlaceholder then .error (.unknownOperator e.render) else e.evaluateAt limit 0

def evaluate (e : Expr) : Except EvalError Binary32 :=
  e.evaluateWithin defaultLimit

/-- The value of an expression that was read with `maxDepth`. -/
def evaluateFor (maxDepth : UInt64) (e : Expr) : Except EvalError Binary32 :=
  e.evaluateWithin (limitFor maxDepth)

end Expr

end PolishCalc
