import PolishCalc.Binary32.Basic

/-!
# Rounding and arithmetic

`nearest` rounds an exact quotient of natural numbers, given in units of
`2 ^ -149`, to the closest binary32 number. Of two that are equally close it
takes the one with the even count, and from half a gap beyond the largest
finite magnitude on it takes infinity.

Each operation takes the exact result, rounded once by `nearest`. A sum or
difference that is exactly zero is negative zero only if both summands are
negative zeros; the sign of a product or quotient is negative if the signs of
its operands differ. A quotient by zero is an infinity, and operations with no
meaning (`∞ - ∞`, `0 * ∞`, `0 / 0`, `∞ / ∞`) give not-a-number, as does every
operation on not-a-number.
-/

namespace PolishCalc.Binary32

open Nat (pow)

/-! ## Rounding -/

/-- The natural number closest to `num / den`, the even one of two. -/
def roundHalfEven (num den : Nat) : Nat :=
  let q := num / den
  let r := num % den
  if den < 2 * r ∨ (2 * r = den ∧ q % 2 = 1) then q + 1 else q

/-- The count of the magnitude closest to `num / den` units, as if there were no largest one.
Below `2 ^ 24` units the gap is one unit; above, the count is taken on the grid whose gap is
`2 ^ k`, so that 24 binary digits are left. -/
def nearestCount (num den : Nat) : Nat :=
  let k := (num / den).log2 - 23
  k * pow 2 23 + roundHalfEven num (den * pow 2 k)

/-- The binary32 number closest to `num / den` units with the given sign. -/
def nearest (negative : Bool) (num den : Nat) : Binary32 :=
  let n := nearestCount num den
  if h : n < finiteCount then finite negative ⟨n, h⟩ else infinite negative

/-- The rounded quotient is the whole part or one more, as the remainder says. -/
theorem roundHalfEven_cases (num den : Nat) :
    (roundHalfEven num den = num / den ∧ 2 * (num % den) ≤ den ∧
      (2 * (num % den) = den → num / den % 2 = 0)) ∨
    (roundHalfEven num den = num / den + 1 ∧ den ≤ 2 * (num % den) ∧
      (2 * (num % den) = den → (num / den + 1) % 2 = 0)) := by
  unfold roundHalfEven
  dsimp only
  split
  · refine .inr ⟨rfl, ?_, ?_⟩ <;> omega
  · refine .inl ⟨rfl, ?_, ?_⟩ <;> omega

/-! ## Operations -/

def neg : Binary32 → Binary32
  | nan => nan
  | infinite negative => infinite !negative
  | finite negative magnitude => finite (!negative) magnitude

def add : Binary32 → Binary32 → Binary32
  | nan, _ => nan
  | _, nan => nan
  | infinite s, infinite t => if s = t then infinite s else nan
  | infinite s, finite _ _ => infinite s
  | finite _ _, infinite t => infinite t
  | finite s m, finite t n =>
    let sum := signedUnits s m + signedUnits t n
    if sum = 0 then finite (s && t) 0 else nearest (sum < 0) sum.natAbs 1

def sub (x y : Binary32) : Binary32 :=
  add x (neg y)

def mul : Binary32 → Binary32 → Binary32
  | nan, _ => nan
  | _, nan => nan
  | infinite s, infinite t => infinite (s ^^ t)
  | infinite s, finite t n => if n = 0 then nan else infinite (s ^^ t)
  | finite s m, infinite t => if m = 0 then nan else infinite (s ^^ t)
  | finite s m, finite t n => nearest (s ^^ t) (units m * units n) (pow 2 149)

def div : Binary32 → Binary32 → Binary32
  | nan, _ => nan
  | _, nan => nan
  | infinite _, infinite _ => nan
  | infinite s, finite t _ => infinite (s ^^ t)
  | finite s _, infinite t => finite (s ^^ t) 0
  | finite s m, finite t n =>
    if n = 0 then if m = 0 then nan else infinite (s ^^ t)
    else nearest (s ^^ t) (units m * pow 2 149) (units n)

instance : Neg Binary32 := ⟨neg⟩
instance : Add Binary32 := ⟨add⟩
instance : Sub Binary32 := ⟨sub⟩
instance : Mul Binary32 := ⟨mul⟩
instance : Div Binary32 := ⟨div⟩

/-! ## Not-a-number stays -/

@[simp] theorem neg_nan : -nan = nan := rfl

@[simp] theorem nan_add (x : Binary32) : nan + x = nan := by
  cases x <;> rfl

@[simp] theorem add_nan (x : Binary32) : x + nan = nan := by
  cases x <;> rfl

@[simp] theorem nan_sub (x : Binary32) : nan - x = nan :=
  nan_add (neg x)

@[simp] theorem sub_nan (x : Binary32) : x - nan = nan :=
  add_nan x

@[simp] theorem nan_mul (x : Binary32) : nan * x = nan := by
  cases x <;> rfl

@[simp] theorem mul_nan (x : Binary32) : x * nan = nan := by
  cases x <;> rfl

@[simp] theorem nan_div (x : Binary32) : nan / x = nan := by
  cases x <;> rfl

@[simp] theorem div_nan (x : Binary32) : x / nan = nan := by
  cases x <;> rfl

end PolishCalc.Binary32
