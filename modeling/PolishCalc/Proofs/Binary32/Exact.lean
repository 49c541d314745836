import PolishCalc.Binary32.Arithmetic
import PolishCalc.Proofs.Binary32.Nearest

/-!
# Exact results

`toRat?` is the exact value of a finite number. An operation whose exact result
is the value of some number gives a number with that value, because rounding
changes no value (`IsNearest.toRat?_eq`). All integers up to `2 ^ 24` are values
(`exists_toRat?_intCast`).
-/

namespace PolishCalc.Binary32

open Nat (pow)

/-! ## Values -/

/-- A value with a sign, given the value without it. -/
def signed (negative : Bool) (x : ℚ) : ℚ :=
  if negative then -x else x

/-- The exact value of a finite number. -/
def toRat? : Binary32 → Option ℚ
  | finite negative magnitude => some (signed negative (magnitudeValue magnitude))
  | _ => none

theorem signed_zero (negative : Bool) : signed negative 0 = 0 := by
  cases negative <;> simp [signed]

theorem signed_div (negative : Bool) (x y : ℚ) :
    signed negative (x / y) = signed negative x / y := by
  cases negative <;> simp [signed, neg_div]

theorem signed_xor_mul (s t : Bool) (x y : ℚ) :
    signed (s ^^ t) (x * y) = signed s x * signed t y := by
  cases s <;> cases t <;> simp [signed]

theorem signed_xor_div (s t : Bool) (x y : ℚ) :
    signed (s ^^ t) (x / y) = signed s x / signed t y := by
  cases s <;> cases t <;> simp [signed, neg_div, div_neg]

theorem abs_signed (negative : Bool) {x : ℚ} (nonneg : 0 ≤ x) : |signed negative x| = x := by
  cases negative <;> simp [signed, abs_of_nonneg nonneg]

theorem magnitudeValue_nonneg (n : Nat) : 0 ≤ magnitudeValue n := by
  unfold magnitudeValue
  positivity

theorem toRat?_eq_some_iff {x : Binary32} {a : ℚ} :
    x.toRat? = some a ↔ ∃ negative magnitude, x = finite negative magnitude ∧
      signed negative (magnitudeValue magnitude) = a := by
  cases x with
  | nan => simp [toRat?]
  | infinite negative => simp [toRat?]
  | finite negative magnitude =>
    constructor
    · intro h
      exact ⟨negative, magnitude, rfl, Option.some.inj h⟩
    · rintro ⟨_, _, same, rfl⟩
      cases same
      rfl

/-! ## Rounding a value -/

theorem closestCount_magnitudeValue (n : Nat) : ClosestCount (magnitudeValue n) n := by
  refine ⟨fun m => ?_, fun {m} other equal => ?_⟩
  · rw [sub_self, abs_zero]
    exact abs_nonneg _
  · rw [sub_self, abs_zero, abs_eq_zero, sub_eq_zero] at equal
    exact absurd (magnitudeValue_strictMono.injective equal).symm other

/-- No value is rounded past a magnitude. -/
theorem ClosestCount.magnitudeValue_le {x : ℚ} {n b : Nat} (h : ClosestCount x n)
    (le : magnitudeValue b ≤ x) : magnitudeValue b ≤ magnitudeValue n := by
  by_contra less
  have closest := h.le b
  rw [abs_of_nonneg (by linarith), abs_of_nonneg (by linarith)] at closest
  linarith

/-- Rounding leaves an exact result as it is if some number has it as its value. -/
theorem IsNearest.toRat?_eq {negative : Bool} {x : ℚ} {v z : Binary32} (h : IsNearest negative x v)
    (nonneg : 0 ≤ x) (hz : z.toRat? = some (signed negative x)) :
    v.toRat? = some (signed negative x) := by
  obtain ⟨t, m, rfl, value⟩ := toRat?_eq_some_iff.mp hz
  have magnitude : magnitudeValue m = x := by
    rw [← abs_signed t (magnitudeValue_nonneg m), value, abs_signed negative nonneg]
  have rounded : IsNearest negative x (.finite negative m) :=
    .finite m (magnitude ▸ closestCount_magnitudeValue m)
  rw [h.unique rounded, toRat?, magnitude]

/-! ## Operations -/

theorem cast_signedUnits (negative : Bool) (magnitude : Fin finiteCount) :
    (signedUnits negative magnitude : ℚ) / 2 ^ 149 =
      signed negative (magnitudeValue magnitude) := by
  cases negative <;> simp [signedUnits, signed, magnitudeValue, neg_div]

theorem signed_natAbs (n : Int) : signed (n < 0) (n.natAbs : ℚ) = n := by
  have cast : ((n.natAbs : Int) : ℚ) = n.natAbs := Int.cast_natCast _
  rw [← cast]
  unfold signed
  split
  next negative =>
    have : n < 0 := by simpa using negative
    exact_mod_cast (by omega : -(n.natAbs : Int) = n)
  next nonneg =>
    have : ¬n < 0 := by simpa using nonneg
    exact_mod_cast (by omega : (n.natAbs : Int) = n)

theorem isNearest_mul (s t : Bool) (m n : Fin finiteCount) :
    IsNearest (s ^^ t) (magnitudeValue m * magnitudeValue n) (finite s m * finite t n) := by
  refine isNearest_nearest _ (Nat.two_pow_pos 149) ?_
  show _ = ((units m * units n : Nat) : ℚ) / (2 ^ 149 : Nat) / 2 ^ 149
  unfold magnitudeValue
  push_cast
  ring

theorem isNearest_div (s t : Bool) (m : Fin finiteCount) {n : Fin finiteCount} (nonzero : n ≠ 0) :
    IsNearest (s ^^ t) (magnitudeValue m / magnitudeValue n) (finite s m / finite t n) := by
  have counted : (0 : Nat) < n := Nat.pos_of_ne_zero fun zero => nonzero (Fin.ext zero)
  have positive : 0 < units n := Nat.lt_of_le_of_lt (Nat.zero_le _) (units_strictMono counted)
  show IsNearest _ _ (div (finite s m) (finite t n))
  unfold div
  dsimp only
  rw [if_neg nonzero]
  refine isNearest_nearest _ positive ?_
  unfold magnitudeValue
  rw [← div_eq_units, div_div_div_cancel_right₀ (by positivity)]

section Operations

variable {x y z : Binary32} {a b : ℚ}

theorem toRat?_neg (hx : x.toRat? = some a) : (-x).toRat? = some (-a) := by
  obtain ⟨s, m, rfl, rfl⟩ := toRat?_eq_some_iff.mp hx
  show some (signed (!s) (magnitudeValue m)) = _
  cases s <;> simp [signed]

theorem toRat?_add (hx : x.toRat? = some a) (hy : y.toRat? = some b)
    (hz : z.toRat? = some (a + b)) : (x + y).toRat? = some (a + b) := by
  obtain ⟨s, m, rfl, rfl⟩ := toRat?_eq_some_iff.mp hx
  obtain ⟨t, n, rfl, rfl⟩ := toRat?_eq_some_iff.mp hy
  rw [← cast_signedUnits, ← cast_signedUnits, ← add_div, ← Int.cast_add] at hz ⊢
  show (add (finite s m) (finite t n)).toRat? = _
  unfold add
  dsimp only
  generalize signedUnits s m + signedUnits t n = sum at hz ⊢
  split
  next zero =>
    rw [zero, Int.cast_zero, zero_div]
    show some (signed _ (magnitudeValue 0)) = some 0
    rw [magnitudeValue_zero, signed_zero]
  next =>
    have value : (sum : ℚ) / 2 ^ 149 = signed (sum < 0) (sum.natAbs / 2 ^ 149) := by
      rw [signed_div, signed_natAbs]
    rw [value] at hz ⊢
    exact (isNearest_nearest _ Nat.one_pos (by simp)).toRat?_eq (by positivity) hz

theorem toRat?_sub (hx : x.toRat? = some a) (hy : y.toRat? = some b)
    (hz : z.toRat? = some (a - b)) : (x - y).toRat? = some (a - b) := by
  rw [sub_eq_add_neg] at hz ⊢
  exact toRat?_add hx (toRat?_neg hy) hz

theorem toRat?_mul (hx : x.toRat? = some a) (hy : y.toRat? = some b)
    (hz : z.toRat? = some (a * b)) : (x * y).toRat? = some (a * b) := by
  obtain ⟨s, m, rfl, rfl⟩ := toRat?_eq_some_iff.mp hx
  obtain ⟨t, n, rfl, rfl⟩ := toRat?_eq_some_iff.mp hy
  rw [← signed_xor_mul] at hz ⊢
  exact (isNearest_mul s t m n).toRat?_eq
    (mul_nonneg (magnitudeValue_nonneg m) (magnitudeValue_nonneg n)) hz

theorem toRat?_div (hx : x.toRat? = some a) (hy : y.toRat? = some b) (nonzero : b ≠ 0)
    (hz : z.toRat? = some (a / b)) : (x / y).toRat? = some (a / b) := by
  obtain ⟨s, m, rfl, rfl⟩ := toRat?_eq_some_iff.mp hx
  obtain ⟨t, n, rfl, rfl⟩ := toRat?_eq_some_iff.mp hy
  have divisor : n ≠ 0 := by
    rintro rfl
    refine nonzero ?_
    show signed t (magnitudeValue 0) = 0
    rw [magnitudeValue_zero, signed_zero]
  rw [← signed_xor_div] at hz ⊢
  exact (isNearest_div s t m divisor).toRat?_eq
    (div_nonneg (magnitudeValue_nonneg m) (magnitudeValue_nonneg n)) hz

end Operations

/-! ## Integers -/

/-- A positive number up to `2 ^ 24` has 24 binary digits once it is shifted. -/
theorem exists_shift {k : Nat} (positive : k ≠ 0) (small : k ≤ 2 ^ 24) :
    ∃ shift ≤ 23, 2 ^ 23 ≤ k * 2 ^ shift ∧ k * 2 ^ shift ≤ 2 ^ 24 := by
  have above := Nat.log2_self_le positive
  have below : k < 2 ^ (k.log2 + 1) := Nat.lt_log2_self
  generalize k.log2 = e at above below
  by_cases last : e ≤ 23
  · refine ⟨23 - e, Nat.sub_le _ _, ?_, ?_⟩
    · calc 2 ^ 23 = 2 ^ e * 2 ^ (23 - e) := by rw [← Nat.pow_add]; congr 1; omega
        _ ≤ k * 2 ^ (23 - e) := Nat.mul_le_mul_right _ above
    · calc k * 2 ^ (23 - e) ≤ 2 ^ (e + 1) * 2 ^ (23 - e) := Nat.mul_le_mul_right _ below.le
        _ = 2 ^ 24 := by rw [← Nat.pow_add]; congr 1; omega
  · have : 2 ^ 24 ≤ 2 ^ e := Nat.pow_le_pow_right (by decide) (by omega)
    exact ⟨0, by omega, by omega, by omega⟩

theorem exists_magnitudeValue_natCast {k : Nat} (small : k ≤ 2 ^ 24) :
    ∃ m : Fin finiteCount, magnitudeValue m = k := by
  by_cases zero : k = 0
  · refine ⟨0, ?_⟩
    rw [zero, Nat.cast_zero]
    exact magnitudeValue_zero
  obtain ⟨shift, le, bottom, top⟩ := exists_shift zero small
  have grid : units ((149 - shift) * pow 2 23 + k * 2 ^ shift) =
      k * 2 ^ shift * 2 ^ (149 - shift) :=
    units_grid top (.inr bottom)
  rw [Nat.mul_assoc, ← Nat.pow_add, Nat.add_sub_cancel' (by omega)] at grid
  have inside : (149 - shift) * pow 2 23 + k * 2 ^ shift < finiteCount := by
    show (149 - shift) * 8388608 + k * 2 ^ shift < 2139095040
    omega
  refine ⟨⟨_, inside⟩, ?_⟩
  rw [magnitudeValue, grid, Nat.cast_mul, Nat.cast_pow, Nat.cast_ofNat,
    mul_div_cancel_right₀ _ (by positivity)]

theorem magnitudeValue_one : magnitudeValue (127 * pow 2 23) = 1 := by
  have grid : units (126 * pow 2 23 + 8388608) = 8388608 * 2 ^ 126 :=
    units_grid (by decide) (by decide)
  show (units (126 * pow 2 23 + 8388608) : ℚ) / 2 ^ 149 = 1
  rw [grid]
  norm_num

theorem exists_toRat?_intCast {n : Int} (small : |n| ≤ 2 ^ 24) :
    ∃ z : Binary32, z.toRat? = some (n : ℚ) := by
  rw [Int.abs_eq_natAbs] at small
  obtain ⟨m, value⟩ := exists_magnitudeValue_natCast (k := n.natAbs) (by omega)
  exact ⟨finite (n < 0) m, by rw [toRat?, value, signed_natAbs]⟩

/-- The number is finite and equals `n`. -/
def IsInt (x : Binary32) (n : Int) : Prop :=
  x.toRat? = some (n : ℚ)

theorem isInt_finite_zero (negative : Bool) : IsInt (finite negative 0) 0 := by
  show some (signed negative (magnitudeValue 0)) = _
  rw [magnitudeValue_zero, signed_zero, Int.cast_zero]

theorem isInt_zero : IsInt zero 0 :=
  isInt_finite_zero false

theorem isInt_one : IsInt one 1 := by
  show some (signed false (magnitudeValue (127 * pow 2 23))) = _
  rw [magnitudeValue_one, Int.cast_one]
  rfl

namespace IsInt

variable {x y : Binary32} {m n q : Int}

theorem neg (hx : x.IsInt m) : (-x).IsInt (-m) := by
  unfold IsInt at *
  rw [Int.cast_neg]
  exact toRat?_neg hx

theorem add (hx : x.IsInt m) (hy : y.IsInt n) (small : |m + n| ≤ 2 ^ 24) :
    (x + y).IsInt (m + n) := by
  obtain ⟨z, hz⟩ := exists_toRat?_intCast small
  unfold IsInt at *
  rw [Int.cast_add] at hz ⊢
  exact toRat?_add hx hy hz

theorem sub (hx : x.IsInt m) (hy : y.IsInt n) (small : |m - n| ≤ 2 ^ 24) :
    (x - y).IsInt (m - n) := by
  obtain ⟨z, hz⟩ := exists_toRat?_intCast small
  unfold IsInt at *
  rw [Int.cast_sub] at hz ⊢
  exact toRat?_sub hx hy hz

theorem mul (hx : x.IsInt m) (hy : y.IsInt n) (small : |m * n| ≤ 2 ^ 24) :
    (x * y).IsInt (m * n) := by
  obtain ⟨z, hz⟩ := exists_toRat?_intCast small
  unfold IsInt at *
  rw [Int.cast_mul] at hz ⊢
  exact toRat?_mul hx hy hz

theorem div (hx : x.IsInt (q * n)) (hy : y.IsInt n) (nonzero : n ≠ 0) (small : |q| ≤ 2 ^ 24) :
    (x / y).IsInt q := by
  obtain ⟨z, hz⟩ := exists_toRat?_intCast small
  have divisor : (n : ℚ) ≠ 0 := Int.cast_ne_zero.mpr nonzero
  have quotient : ((q * n : Int) : ℚ) / n = q := by
    rw [Int.cast_mul, mul_div_cancel_right₀ _ divisor]
  unfold IsInt at *
  rw [← quotient] at hz ⊢
  exact toRat?_div hx hy divisor hz

end IsInt

end PolishCalc.Binary32
