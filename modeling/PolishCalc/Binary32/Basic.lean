/-!
# Binary32 numbers

A finite number of the IEEE 754 format binary32 is a sign and a magnitude. The
magnitudes are counted upwards from zero, in the order of their values, and
`units` is the value of the `n`-th one as a multiple of the least positive
magnitude, `2 ^ -149`. So the sum and the product of two finite numbers are
exact on `Int` and `Nat` before they are rounded.

The count of a magnitude is also what the low 31 bits of the number's encoding
spell.
-/

namespace PolishCalc

open Nat (pow)

/-- How many magnitudes the finite numbers have. -/
abbrev Binary32.finiteCount : Nat := 255 * pow 2 23

instance : @NeZero Nat Zero.ofOfNat0 Binary32.finiteCount := ⟨by decide⟩

/-- A binary32 number. All the encodings of not-a-number are one value. -/
inductive Binary32 where
  | nan
  | infinite (negative : Bool)
  | finite (negative : Bool) (magnitude : Fin Binary32.finiteCount)
  deriving DecidableEq, Repr

namespace Binary32

/-- The value of the `n`-th magnitude in units of `2 ^ -149`: up to `2 ^ 24` every unit is a
magnitude, and each time the value doubles from there the gap doubles too. -/
def units (n : Nat) : Nat :=
  if n < pow 2 23 then n else (pow 2 23 + n % pow 2 23) * pow 2 (n / pow 2 23 - 1)

/-- The value of a finite number in units of `2 ^ -149`. -/
def signedUnits (negative : Bool) (magnitude : Fin finiteCount) : Int :=
  if negative then -(units magnitude : Int) else units magnitude

def isFinite : Binary32 → Bool
  | finite _ _ => true
  | _ => false

/-- Positive zero. -/
def zero : Binary32 := finite false 0

def one : Binary32 := finite false ⟨127 * pow 2 23, by decide⟩

/-! ## Encodings -/

/-- The number that an encoding stands for. -/
def ofBits (bits : UInt32) : Binary32 :=
  let n := bits.toNat % pow 2 31
  if h : n < finiteCount then finite (pow 2 31 ≤ bits.toNat) ⟨n, h⟩
  else if n = finiteCount then infinite (pow 2 31 ≤ bits.toNat)
  else nan

/-- The bit of the sign, the highest of an encoding. -/
def signBit (negative : Bool) : Nat :=
  if negative then pow 2 31 else 0

/-- The encoding of a number. Not-a-number is written as the positive quiet one. -/
def toBits : Binary32 → UInt32
  | nan => 0x7FC00000
  | infinite negative => UInt32.ofNat (signBit negative + finiteCount)
  | finite negative magnitude => UInt32.ofNat (signBit negative + magnitude)

theorem units_of_lt {n : Nat} (h : n < pow 2 23) : units n = n :=
  if_pos h

end Binary32

end PolishCalc
