import Mathlib.Data.Nat.PSub
import PolishCalc.Expr.Reading

/-!
# Reading by recursive descent

`readExpr` and `readForm` call each other and share a cursor, the index of the
next token, which they are given and give back with what they have read. The
loop over the children of a form is `readChildren`.

Three things could go wrong, and then there is no result: the index of the token
before the cursor is asked for where there is none, a round of the loop leaves
the cursor where it is and so would go on for ever, or more forms are entered
inside one another than the fuel allows.
-/

namespace PolishCalc.Descent

/-- What was read, or why nothing could be read, and the cursor after that. -/
abbrev Outcome (α : Type) := Except SyntaxError α × Nat

/-- How many forms may still be entered inside one another; `none` for any number. -/
abbrev Fuel := Option Nat

/-- What is left inside one more form, if it may be entered. -/
def Fuel.spend? : Fuel → Option Fuel
  | none => some none
  | some n => n.ppred.map some

/-- Closes the form that was opened at `opening`, with the cursor at the closing parenthesis. -/
def close (opening : Nat) : Outcome (List Expr) → Outcome Expr
  | (.error error, q) => (.error error, q)
  | (.ok children, q) =>
    match Expr.ofChildren? children with
    | none => (.error (.invalidExpression opening), q)
    | some e => (.ok e, q + 1)

theorem lt_of_getElem? {tokens : List Token} {p : Nat} {token : Token}
    (h : tokens[p]? = some token) : p < tokens.length :=
  (List.getElem?_eq_some_iff.mp h).1

mutual

/-- Reads the next expression, inside `depth` forms. -/
def readExpr (tokens : List Token) (maxDepth : Nat) (fuel : Fuel) (depth p : Nat) :
    Option (Outcome Expr) :=
  match _ : tokens[p]? with
  | none => some (.error (.unexpectedEnd p), p)
  | some .openParen => do readForm tokens maxDepth (← fuel.spend?) (depth + 1) (p + 1)
  | some .closeParen => do return (.error (.unexpectedClosingParen (← (p + 1).ppred)), p + 1)
  | some (.atom text) => some (.ok (.leaf text), p + 1)
termination_by (tokens.length - p, 0)
decreasing_by
  have := lt_of_getElem? ‹tokens[p]? = some _›
  exact .left _ _ (by omega)

/-- Reads a form whose opening parenthesis is the token before the cursor. -/
def readForm (tokens : List Token) (maxDepth : Nat) (fuel : Fuel) (depth p : Nat) :
    Option (Outcome Expr) := do
  let opening ← p.ppred
  if maxDepth < depth then return (.error (.tooDeeplyNested maxDepth opening), p)
  return close opening (← readChildren tokens maxDepth fuel depth p [])
termination_by (tokens.length - p, 2)
decreasing_by exact .right _ (by decide)

/-- Reads more children of a form, up to its closing parenthesis. -/
def readChildren (tokens : List Token) (maxDepth : Nat) (fuel : Fuel) (depth p : Nat)
    (children : List Expr) : Option (Outcome (List Expr)) :=
  match _ : tokens[p]? with
  | none => some (.error (.unexpectedEnd p), p)
  | some .closeParen => some (.ok children, p)
  | some _ => do
    match ← readExpr tokens maxDepth fuel depth p with
    | (.error error, q) => return (.error error, q)
    | (.ok e, q) =>
      if _ : p < q then readChildren tokens maxDepth fuel depth q (children ++ [e]) else none
termination_by (tokens.length - p, 1)
decreasing_by
  · exact .right _ (by decide)
  · have := lt_of_getElem? ‹tokens[p]? = some _›
    exact .left _ _ (by omega)

end

/-! ## One call -/

section Calls

variable {tokens : List Token} {maxDepth depth p q : Nat} {fuel : Fuel} {children : List Expr}

theorem readExpr_of_none (h : tokens[p]? = none) :
    readExpr tokens maxDepth fuel depth p = some (.error (.unexpectedEnd p), p) := by
  rw [readExpr, h]

theorem readExpr_of_atom {text : String} (h : tokens[p]? = some (.atom text)) :
    readExpr tokens maxDepth fuel depth p = some (.ok (.leaf text), p + 1) := by
  rw [readExpr, h]

theorem readExpr_of_closeParen (h : tokens[p]? = some .closeParen) :
    readExpr tokens maxDepth fuel depth p = some (.error (.unexpectedClosingParen p), p + 1) := by
  rw [readExpr, h]
  rfl

theorem readExpr_of_openParen (h : tokens[p]? = some .openParen) :
    readExpr tokens maxDepth fuel depth p =
      fuel.spend?.bind fun rest => readForm tokens maxDepth rest (depth + 1) (p + 1) := by
  rw [readExpr, h]
  rfl

theorem readForm_of_lt (h : maxDepth < depth) :
    readForm tokens maxDepth fuel depth (p + 1) =
      some (.error (.tooDeeplyNested maxDepth p), p + 1) := by
  rw [readForm, Nat.ppred_succ]
  exact if_pos h

theorem readForm_of_le (h : depth ≤ maxDepth) :
    readForm tokens maxDepth fuel depth (p + 1) =
      (readChildren tokens maxDepth fuel depth (p + 1) []).map (close p) := by
  rw [readForm, Nat.ppred_succ, Option.map_eq_bind]
  exact if_neg (Nat.not_lt.mpr h)

theorem readChildren_of_none (h : tokens[p]? = none) :
    readChildren tokens maxDepth fuel depth p children = some (.error (.unexpectedEnd p), p) := by
  rw [readChildren, h]

theorem readChildren_of_closeParen (h : tokens[p]? = some .closeParen) :
    readChildren tokens maxDepth fuel depth p children = some (.ok children, p) := by
  rw [readChildren, h]

section Child

variable {token : Token} (h : tokens[p]? = some token) (ne : token ≠ .closeParen)

include h ne

theorem readChildren_of_child :
    readChildren tokens maxDepth fuel depth p children =
      (readExpr tokens maxDepth fuel depth p).bind fun
        | (.error error, q) => some (.error error, q)
        | (.ok e, q) =>
          if p < q then readChildren tokens maxDepth fuel depth q (children ++ [e]) else none := by
  rw [readChildren, h]
  cases token with
  | closeParen => exact absurd rfl ne
  | openParen => rfl
  | atom text => rfl

theorem readChildren_of_error {error : SyntaxError}
    (failed : readExpr tokens maxDepth fuel depth p = some (.error error, q)) :
    readChildren tokens maxDepth fuel depth p children = some (.error error, q) := by
  rw [readChildren_of_child h ne, failed]
  rfl

theorem readChildren_of_ok {e : Expr}
    (found : readExpr tokens maxDepth fuel depth p = some (.ok e, q)) (moved : p < q) :
    readChildren tokens maxDepth fuel depth p children =
      readChildren tokens maxDepth fuel depth q (children ++ [e]) := by
  rw [readChildren_of_child h ne, found]
  exact if_pos moved

end Child

end Calls

/-! ## Fuel -/

/-- The forms that may be entered are no fewer than those that the limit lets pass, and one that
it refuses. -/
def Fuel.Suffices (maxDepth depth : Nat) (fuel : Fuel) : Prop :=
  ∀ n ∈ fuel, maxDepth < depth + n

theorem Fuel.Suffices.spend {maxDepth depth : Nat} {fuel : Fuel} (h : fuel.Suffices maxDepth depth)
    (fits : depth ≤ maxDepth) :
    ∃ rest, fuel.spend? = some rest ∧ rest.Suffices maxDepth (depth + 1) := by
  cases fuel with
  | none => exact ⟨none, rfl, nofun⟩
  | some n =>
    have enough := h n rfl
    cases n with
    | zero => omega
    | succ n =>
      refine ⟨some n, rfl, fun m same => ?_⟩
      obtain rfl := Option.some.inj same
      omega

end PolishCalc.Descent
