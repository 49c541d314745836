import PolishCalc.Binary32.Arithmetic
import PolishCalc.Decimal

/-!
# Decimals of binary32 numbers

`ofDecimal` gives the binary32 number closest to a decimal. A decimal of at
least `10 ^ 39` lies beyond the largest finite number, and one so small that
its digits and its exponent alone put it below half the least magnitude rounds
to zero, so no power of ten is ever computed that the answer does not need.

`shortest` gives a finite number the decimal with the fewest digits that reads
back as that number. Of two decimals with that many digits it takes the closer
one, and the larger one if they are equally close. Every magnitude has an exact
decimal, a multiple of `10 ^ -149`; the candidates with fewer digits are the
two decimals around it that end at a given digit. Nine digits always suffice.
-/

namespace PolishCalc.Binary32

open Nat (pow)

/-- The closest binary32 number, with the decimal's sign on zero too. -/
def ofDecimal (d : Decimal) : Binary32 :=
  if d.coefficient = 0 then finite d.negative 0
  else
    match d.exponent with
    | .ofNat e =>
      if 39 ≤ e then infinite d.negative
      else nearest d.negative (d.coefficient * pow 10 e * pow 2 149) 1
    | .negSucc e =>
      if d.coefficient.log2 + 151 ≤ 3 * (e + 1) then finite d.negative 0
      else nearest d.negative (d.coefficient * pow 2 149) (pow 10 (e + 1))

/-! ## The shortest decimal of a number -/

/-- The value of the `n`-th magnitude as a multiple of `10 ^ -149`. -/
def exactCoefficient (n : Nat) : Nat :=
  units n * pow 5 149

/-- The decimal that equals a finite number. -/
def exactDecimal (negative : Bool) (magnitude : Fin finiteCount) : Decimal :=
  ⟨negative, exactCoefficient magnitude, -149⟩

/-- The better one of the two decimals around a finite number that lack the last `dropped` digits
of the exact one, if any reads back as the number. -/
def shortened (negative : Bool) (magnitude : Fin finiteCount) (dropped : Nat) : Option Decimal :=
  let exact := exactCoefficient magnitude
  let gap := pow 10 dropped
  let lower : Decimal := ⟨negative, exact / gap, dropped - 149⟩
  let upper : Decimal := ⟨negative, exact / gap + 1, dropped - 149⟩
  let readsBack (d : Decimal) : Bool := ofDecimal d = finite negative magnitude
  if readsBack lower && (!readsBack upper || 2 * (exact % gap) < gap) then
    some lower
  else if readsBack upper then some upper
  else none

/-- The most digits that a shortest decimal has. -/
def maxDigits : Nat := 9

def shortest (negative : Bool) (magnitude : Fin finiteCount) : Decimal :=
  let size := (Decimal.digitsOf (exactCoefficient magnitude)).length
  let found := (List.range' 1 maxDigits).findSome? fun digits =>
    shortened negative magnitude (size - digits)
  found.getD (exactDecimal negative magnitude)

/-- The text of a number: its shortest decimal, or the name of an infinity or of not-a-number. -/
def text : Binary32 → String
  | nan => "NaN"
  | infinite false => "inf"
  | infinite true => "-inf"
  | finite negative magnitude => String.ofList (shortest negative magnitude).write

end PolishCalc.Binary32
