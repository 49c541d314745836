import PolishCalc.Binary32.Decimal
import PolishCalc.Proofs.Binary32.Exact
import PolishCalc.Proofs.Decimal.Numeral

/-!
# Numbers and their decimals

`ofDecimal` gives the binary32 number nearest to the exact value of a decimal,
also where it decides without computing the power of ten
(`isNearest_ofDecimal`).

The shortest decimal reads back as its number: a candidate with few digits is
taken only if it does. The exact decimal, which is taken if there is no such
candidate, has the value of a magnitude, and nothing is closer to it than that
magnitude. So either way the decimal reads back (`ofDecimal_shortest`).
-/

namespace PolishCalc.Binary32

open Nat (pow)

variable {c e : Nat} {negative : Bool} {magnitude : Fin finiteCount}

/-! ## Rounding a decimal -/

/-- From `10 ^ 39` on every decimal overflows. -/
theorem overflow_le_mul_pow (positive : c ≠ 0) (large : 39 ≤ e) : overflow ≤ c * 10 ^ e := by
  have one : (1 : ℚ) ≤ c := by exact_mod_cast Nat.one_le_iff_ne_zero.mpr positive
  calc overflow ≤ 10 ^ 39 := by norm_num [overflow]
    _ ≤ 10 ^ e := pow_le_pow_right₀ (by norm_num) large
    _ ≤ c * 10 ^ e := le_mul_of_one_le_left (by positivity) one

/-- As `10 ^ e` is at least `2 ^ (3 * e)`, a decimal with few digits for its exponent is tiny. -/
theorem div_pow_le (small : c.log2 + 151 ≤ 3 * e) : (c : ℚ) / 10 ^ e ≤ 1 / 2 ^ 150 := by
  have scaled : c * 2 ^ 150 ≤ 10 ^ e :=
    calc c * 2 ^ 150 ≤ 2 ^ (c.log2 + 1) * 2 ^ 150 :=
          Nat.mul_le_mul_right _ (Nat.le_of_lt Nat.lt_log2_self)
      _ = 2 ^ (c.log2 + 151) := by rw [← Nat.pow_add]
      _ ≤ 2 ^ (3 * e) := Nat.pow_le_pow_right (by decide) small
      _ = 8 ^ e := by rw [Nat.pow_mul]
      _ ≤ 10 ^ e := Nat.pow_le_pow_left (by decide) e
  rw [div_le_div_iff₀ (by positivity) (by positivity), one_mul]
  exact_mod_cast scaled

theorem isNearest_ofDecimal (d : Decimal) : IsNearest d.negative d.magnitude (ofDecimal d) := by
  obtain ⟨negative, c, exponent⟩ := d
  unfold ofDecimal Decimal.magnitude
  dsimp only
  by_cases zero : c = 0
  · rw [if_pos zero, zero, Nat.cast_zero, zero_mul]
    exact .zero le_rfl (by positivity)
  · rw [if_neg zero]
    cases exponent with
    | ofNat e =>
      rw [Int.ofNat_eq_natCast, zpow_natCast]
      dsimp only
      split
      next large => exact .infinite_of_le (overflow_le_mul_pow zero large)
      next =>
        refine isNearest_nearest negative Nat.one_pos ?_
        rw [← div_eq_units, Nat.cast_one, div_one]
        exact_mod_cast rfl
    | negSucc e =>
      rw [zpow_negSucc, ← div_eq_mul_inv]
      dsimp only
      split
      next small => exact .zero (by positivity) (div_pow_le small)
      next =>
        refine isNearest_nearest negative (Nat.pow_pos (by decide)) ?_
        rw [← div_eq_units]
        exact_mod_cast rfl

/-! ## Reading a shortest decimal back -/

theorem magnitude_exactDecimal (negative : Bool) (magnitude : Fin finiteCount) :
    (exactDecimal negative magnitude).magnitude = magnitudeValue magnitude := by
  have five : ((pow 5 149 : Nat) : ℚ) = 10 ^ 149 / 2 ^ 149 := by
    rw [show pow 5 149 = 5 ^ 149 from rfl, ← div_pow]
    norm_num
  show ((units magnitude * pow 5 149 : Nat) : ℚ) * 10 ^ (-149 : Int) = units magnitude / 2 ^ 149
  rw [Nat.cast_mul, five, zpow_neg, zpow_ofNat]
  field_simp

theorem ofDecimal_exactDecimal (negative : Bool) (magnitude : Fin finiteCount) :
    ofDecimal (exactDecimal negative magnitude) = finite negative magnitude := by
  have nearest := isNearest_ofDecimal (exactDecimal negative magnitude)
  rw [magnitude_exactDecimal] at nearest
  exact nearest.unique (.finite magnitude (closestCount_magnitudeValue magnitude))

theorem ofDecimal_of_shortened {dropped : Nat} {d : Decimal}
    (h : shortened negative magnitude dropped = some d) :
    ofDecimal d = finite negative magnitude := by
  unfold shortened at h
  dsimp only at h
  split at h
  next lower =>
    obtain rfl := Option.some.inj h
    rw [Bool.and_eq_true] at lower
    exact of_decide_eq_true lower.1
  next =>
    split at h
    next upper =>
      obtain rfl := Option.some.inj h
      exact of_decide_eq_true upper
    next => cases h

theorem ofDecimal_shortest (negative : Bool) (magnitude : Fin finiteCount) :
    ofDecimal (shortest negative magnitude) = finite negative magnitude := by
  unfold shortest
  dsimp only
  cases found : (List.range' 1 maxDigits).findSome? fun digits => shortened negative magnitude
      ((Decimal.digitsOf (exactCoefficient magnitude)).length - digits) with
  | none => exact ofDecimal_exactDecimal negative magnitude
  | some d =>
    obtain ⟨digits, -, candidate⟩ := List.exists_of_findSome?_eq_some found
    exact ofDecimal_of_shortened candidate

end PolishCalc.Binary32
