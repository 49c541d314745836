import PolishCalc.Expr.Basic
import PolishCalc.Token

/-!
# Reading expressions

An expression is read token by token. Between two tokens the reader holds the
forms that are still open, the innermost first, each with the index of its
opening parenthesis and the children read so far. Reading ends with the first
complete expression; the tokens after it are left alone.

An opening parenthesis is refused when `maxDepth` forms are open already, and a
closing one when no form is open or the innermost has fewer than three
children. A syntax error says why no expression could be read, at which token,
and what was found there if that is worth saying. Tokens are counted from zero.
-/

namespace PolishCalc

/-! ## Syntax errors -/

inductive SyntaxError.Kind where
  /-- The tokens ended inside an expression, or there were none. -/
  | unexpectedEnd
  /-- A closing parenthesis stood where an expression has to start. -/
  | unexpectedClosingParen
  /-- A form had fewer than two operands. -/
  | invalidExpression
  /-- A form was opened inside too many others. -/
  | tooDeeplyNested
  deriving DecidableEq, Repr

structure SyntaxError where
  kind : SyntaxError.Kind
  message : String
  position : Nat
  found : Option String
  deriving DecidableEq, Repr

namespace SyntaxError

/-- The message of an error that has nothing more to say than its kind. -/
def Kind.message : Kind → String
  | unexpectedEnd => "unexpected end of expression"
  | unexpectedClosingParen => "unexpected closing parenthesis"
  | invalidExpression => "invalid expression"
  | tooDeeplyNested => "expression too deeply nested"

def ofKind (kind : Kind) (position : Nat) (found : Option String) : SyntaxError :=
  { kind, message := kind.message, position, found }

def withMessage (kind : Kind) (message : String) (position : Nat) : SyntaxError :=
  { kind, message, position, found := none }

def unexpectedEnd (position : Nat) : SyntaxError :=
  ofKind .unexpectedEnd position none

def unexpectedClosingParen (position : Nat) : SyntaxError :=
  ofKind .unexpectedClosingParen position (some ")")

/-- The position is that of the form's opening parenthesis. -/
def invalidExpression (position : Nat) : SyntaxError :=
  ofKind .invalidExpression position none

/-- The message names the number of forms that may be nested. -/
def tooDeeplyNested (maxDepth position : Nat) : SyntaxError :=
  withMessage .tooDeeplyNested
    (Kind.tooDeeplyNested.message ++ " (max depth: " ++ toString maxDepth ++ ")") position

end SyntaxError

/-! ## Open forms -/

/-- A form whose closing parenthesis has not come yet. -/
structure OpenForm where
  /-- The index of the opening parenthesis. -/
  position : Nat
  /-- The children read so far, the latest first. -/
  children : List Expr
  deriving DecidableEq, Repr

/-- How far reading has come after a token. -/
inductive Progress where
  | complete (e : Expr)
  | pending (forms : List OpenForm)
  deriving DecidableEq, Repr

namespace OpenForm

/-- Adds a complete expression to the innermost open form; without one, nothing is left to
read. -/
def place (e : Expr) : List OpenForm → Progress
  | [] => .complete e
  | form :: outer => .pending ({ form with children := e :: form.children } :: outer)

/-- What one token does to the open forms. -/
def step (maxDepth : Nat) (forms : List OpenForm) (position : Nat) :
    Token → Except SyntaxError Progress
  | .atom text => .ok (place (.leaf text) forms)
  | .openParen =>
    if forms.length < maxDepth then .ok (.pending (⟨position, []⟩ :: forms))
    else .error (.tooDeeplyNested maxDepth position)
  | .closeParen =>
    match forms with
    | [] => .error (.unexpectedClosingParen position)
    | form :: outer =>
      match Expr.ofChildren? form.children.reverse with
      | none => .error (.invalidExpression form.position)
      | some e => .ok (place e outer)

/-- Reads on inside the open forms, from the token with index `position`. The result comes with
the tokens after it. -/
def read (maxDepth : Nat) (forms : List OpenForm) (position : Nat) :
    List Token → Except SyntaxError (Expr × List Token)
  | [] => .error (.unexpectedEnd position)
  | token :: rest =>
    match step maxDepth forms position token with
    | .error error => .error error
    | .ok (.complete e) => .ok (e, rest)
    | .ok (.pending forms) => read maxDepth forms (position + 1) rest

end OpenForm

/-! ## Whole expressions -/

namespace Expr

/-- How many forms may be nested if nothing else is asked for. -/
def defaultMaxDepth : UInt64 := 32

/-- The first expression of a list of tokens. -/
def ofTokens (maxDepth : UInt64) (tokens : List Token) : Except SyntaxError Expr :=
  (OpenForm.read maxDepth.toNat [] 0 tokens).map Prod.fst

/-- The first expression of a text. -/
def read (maxDepth : UInt64) (text : String) : Except SyntaxError Expr :=
  ofTokens maxDepth (Token.tokenize text)

/-- The first expression of a text, or the placeholder if none can be read. -/
def readOrPlaceholder (maxDepth : UInt64) (text : String) : Expr :=
  match read maxDepth text with
  | .ok e => e
  | .error _ => placeholder

end Expr

end PolishCalc
