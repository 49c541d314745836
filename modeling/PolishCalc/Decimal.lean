/-!
# Decimals

A decimal is a sign and a coefficient times a power of ten. Different decimals
may have one value, and negative zero is kept apart from zero. The digits of
numbers are characters, the most significant one first.

A numeric literal is an optional sign, ASCII digits with an optional point
before, among or after them, and an optional exponent: `e` or `E`, an optional
sign and digits. Both digit sequences need at least one digit. Nothing else is
a literal; in particular `inf` and `nan` are not.

A decimal whose first significant digit counts `10 ^ -4` up to `10 ^ 15` is
written positionally, with a point and at least one digit on each side of it:
`30.0`, `0.0001`. Any other is written with one digit before the point and an
exponent, which has no sign unless it is negative: `1e16`, `1.5e-7`. Zeros at
the end of the coefficient are not written for their own sake.
-/

namespace PolishCalc

structure Decimal where
  negative : Bool
  coefficient : Nat
  exponent : Int
  deriving DecidableEq, Repr

namespace Decimal

def digitValue (c : Char) : Nat :=
  c.toNat - '0'.toNat

/-- The number that digits spell. -/
def ofDigits (digits : List Char) : Nat :=
  digits.foldl (fun n c => 10 * n + digitValue c) 0

/-- The digits of a number, without leading zeros. -/
def digitsOf (n : Nat) : List Char :=
  Nat.toDigits 10 n

/-- The power of ten that the first digit of the coefficient counts. -/
def leadingExponent (d : Decimal) : Int :=
  (digitsOf d.coefficient).length - 1 + d.exponent

/-- The digits of the coefficient up to the last one that is not zero. -/
def significantDigits (d : Decimal) : List Char :=
  ((digitsOf d.coefficient).reverse.dropWhile (· = '0')).reverse

@[simp] theorem ofDigits_nil : ofDigits [] = 0 := rfl

theorem ofDigits_concat (digits : List Char) (c : Char) :
    ofDigits (digits ++ [c]) = 10 * ofDigits digits + digitValue c := by
  simp [ofDigits]

/-! ## Reading literals -/

/-- A sign at the start, as whether it is a minus, and what follows it. -/
def splitSign : List Char → Bool × List Char
  | '+' :: rest => (false, rest)
  | '-' :: rest => (true, rest)
  | cs => (false, cs)

/-- The digits at the start, and what follows them. -/
def splitDigits (cs : List Char) : List Char × List Char :=
  (cs.takeWhile Char.isDigit, cs.dropWhile Char.isDigit)

/-- The digits after a point at the start, and what follows them. -/
def splitFraction : List Char → List Char × List Char
  | '.' :: rest => splitDigits rest
  | cs => ([], cs)

/-- A whole exponent, the empty one included. -/
def exponentOf? : List Char → Option Int
  | [] => some 0
  | c :: rest =>
    let (negative, digits) := splitSign rest
    if (c = 'e' ∨ c = 'E') ∧ digits ≠ [] ∧ digits.all Char.isDigit then
      some (if negative then -(ofDigits digits : Int) else ofDigits digits)
    else none

/-- The decimal that a whole literal spells, given by its characters. -/
def ofChars? (cs : List Char) : Option Decimal :=
  let (negative, unsigned) := splitSign cs
  let (whole, afterWhole) := splitDigits unsigned
  let (fraction, afterFraction) := splitFraction afterWhole
  if whole = [] ∧ fraction = [] then none
  else (exponentOf? afterFraction).map fun exponent =>
    ⟨negative, ofDigits (whole ++ fraction), exponent - fraction.length⟩

def ofString? (text : String) : Option Decimal :=
  ofChars? text.toList

theorem append_splitDigits (cs : List Char) : (splitDigits cs).1 ++ (splitDigits cs).2 = cs :=
  List.takeWhile_append_dropWhile

theorem isDigit_of_mem_splitDigits {cs : List Char} {c : Char} (h : c ∈ (splitDigits cs).1) :
    c.isDigit = true := by
  simp only [splitDigits] at h
  exact List.all_eq_true.mp List.all_takeWhile c h

/-! ## Writing decimals -/

/-- The first digit counts `10 ^ leading`. -/
def positional (digits : List Char) : (leading : Int) → List Char
  | .ofNat n =>
    let fraction := digits.drop (n + 1)
    digits.take (n + 1) ++ List.replicate (n + 1 - digits.length) '0' ++
      '.' :: if fraction = [] then ['0'] else fraction
  | .negSucc n => '0' :: '.' :: (List.replicate n '0' ++ digits)

/-- An integer, with a sign only if it is negative. -/
def writeInt (n : Int) : List Char :=
  if n < 0 then '-' :: digitsOf n.natAbs else digitsOf n.natAbs

/-- The first digit counts `10 ^ leading`. -/
def scientific : (digits : List Char) → (leading : Int) → List Char
  | [], leading => '0' :: 'e' :: writeInt leading
  | [d], leading => d :: 'e' :: writeInt leading
  | d :: fraction, leading => d :: '.' :: (fraction ++ 'e' :: writeInt leading)

/-- The text of the absolute value. -/
def writeUnsigned (d : Decimal) : List Char :=
  let digits := d.significantDigits
  let leading := d.leadingExponent
  if digits = [] then positional [] 0
  else if -4 ≤ leading ∧ leading < 16 then positional digits leading
  else scientific digits leading

def write (d : Decimal) : List Char :=
  if d.negative then '-' :: d.writeUnsigned else d.writeUnsigned

end Decimal

end PolishCalc
