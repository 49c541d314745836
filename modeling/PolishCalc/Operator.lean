import PolishCalc.Binary32.Arithmetic

/-!
# Operators

The four operators, each over any number of operands. Sums start from zero and
products from one, and go from left to right. A difference takes the sum of
the later operands from the first one, and a quotient divides the first
operand by the product of the later ones.
-/

namespace PolishCalc

inductive Operator where
  | add
  | subtract
  | multiply
  | divide
  deriving DecidableEq, Repr

namespace Operator

def all : List Operator :=
  [add, subtract, multiply, divide]

def symbol : Operator → String
  | add => "+"
  | subtract => "-"
  | multiply => "*"
  | divide => "/"

def ofSymbol? (symbol : String) : Option Operator :=
  all.find? fun operator => operator.symbol = symbol

def sum (xs : List Binary32) : Binary32 :=
  xs.foldl (· + ·) Binary32.zero

def product (xs : List Binary32) : Binary32 :=
  xs.foldl (· * ·) Binary32.one

/-- The value of an operator on its operands; without operands, that of the empty sum or
product. -/
def apply : Operator → List Binary32 → Binary32
  | add, xs => sum xs
  | multiply, xs => product xs
  | subtract, [] => sum []
  | subtract, x :: xs => x - sum xs
  | divide, [] => product []
  | divide, x :: xs => x / product xs

@[simp] theorem ofSymbol?_symbol (operator : Operator) :
    ofSymbol? operator.symbol = some operator := by
  cases operator <;> decide

theorem ofSymbol?_eq_some_iff {text : String} {operator : Operator} :
    ofSymbol? text = some operator ↔ operator.symbol = text := by
  constructor
  · intro h
    simpa using List.find?_some h
  · rintro rfl
    exact ofSymbol?_symbol operator

end Operator

end PolishCalc
