import Mathlib.Algebra.Order.Field.Rat
import Mathlib.Tactic.FieldSimp
import Mathlib.Tactic.Linarith
import Mathlib.Tactic.NormNum
import Mathlib.Tactic.Ring
import PolishCalc.Binary32.Arithmetic
import PolishCalc.Proofs.Binary32.Magnitude

/-!
# The nearest binary32 number

What rounding should give is said without its arithmetic: `ClosestCount` asks
for the closest of all magnitudes as if there were no largest one, and
`IsNearest` makes a number of it, an infinity if it is beyond the largest
finite magnitude. There is one such number at most (`IsNearest.unique`), and it
is what `nearest` gives (`isNearest_nearest`). It is infinite from `overflow`
on, half-way from the largest finite magnitude to the next power of two.
-/

namespace PolishCalc.Binary32

open Nat (pow)

/-- The `n`-th magnitude is closest to `x`, as if there were no largest one. Of two that are
equally close it is the one with the even count. -/
structure ClosestCount (x : ℚ) (n : Nat) : Prop where
  le (m : Nat) : |x - magnitudeValue n| ≤ |x - magnitudeValue m|
  even {m : Nat} : m ≠ n → |x - magnitudeValue m| = |x - magnitudeValue n| → n % 2 = 0

/-- The number is the one nearest to `x` with the sign. -/
inductive IsNearest (negative : Bool) (x : ℚ) : Binary32 → Prop where
  | finite (magnitude : Fin finiteCount) : ClosestCount x magnitude →
      IsNearest negative x (finite negative magnitude)
  | infinite {n : Nat} : ClosestCount x n → finiteCount ≤ n →
      IsNearest negative x (infinite negative)

/-- Where rounding begins to give infinity. -/
def overflow : ℚ :=
  (2 ^ 25 - 1) * 2 ^ 103

variable {x : ℚ} {n b : Nat}

/-! ## Between two neighbours -/

theorem sub_le_distance {m : Nat} (le : m ≤ b) :
    x - magnitudeValue b ≤ |x - magnitudeValue m| :=
  (sub_le_sub_left (magnitudeValue_strictMono.monotone le) x).trans (le_abs_self _)

theorem magnitudeValue_sub_le_distance {m : Nat} (le : b ≤ m) :
    magnitudeValue b - x ≤ |x - magnitudeValue m| := by
  rw [abs_sub_comm]
  exact (sub_le_sub_right (magnitudeValue_strictMono.monotone le) x).trans (le_abs_self _)

theorem closestCount_lower (above : magnitudeValue b ≤ x)
    (near : x - magnitudeValue b ≤ magnitudeValue (b + 1) - x)
    (tie : x - magnitudeValue b = magnitudeValue (b + 1) - x → b % 2 = 0) :
    ClosestCount x b := by
  have distance : |x - magnitudeValue b| = x - magnitudeValue b := abs_of_nonneg (by linarith)
  refine ⟨fun m => ?_, fun {m} other equal => ?_⟩
  · rw [distance]
    rcases Nat.lt_or_ge b m with greater | le
    · exact near.trans (magnitudeValue_sub_le_distance greater)
    · exact sub_le_distance le
  · rw [distance] at equal
    rcases Nat.lt_or_gt_of_ne other with less | greater
    · have := magnitudeValue_strictMono less
      have := le_abs_self (x - magnitudeValue m)
      linarith
    · exact tie (near.antisymm ((magnitudeValue_sub_le_distance greater).trans_eq equal))

theorem closestCount_upper (below : x ≤ magnitudeValue (b + 1))
    (near : magnitudeValue (b + 1) - x ≤ x - magnitudeValue b)
    (tie : x - magnitudeValue b = magnitudeValue (b + 1) - x → (b + 1) % 2 = 0) :
    ClosestCount x (b + 1) := by
  have distance : |x - magnitudeValue (b + 1)| = magnitudeValue (b + 1) - x := by
    rw [abs_of_nonpos (by linarith), neg_sub]
  refine ⟨fun m => ?_, fun {m} other equal => ?_⟩
  · rw [distance]
    rcases Nat.lt_or_ge b m with greater | le
    · exact magnitudeValue_sub_le_distance greater
    · exact near.trans (sub_le_distance le)
  · rw [distance] at equal
    rcases Nat.lt_or_gt_of_ne other with less | greater
    · exact tie (((sub_le_distance (Nat.le_of_lt_succ less)).trans_eq equal).antisymm near)
    · have := magnitudeValue_strictMono greater
      have := neg_le_abs (x - magnitudeValue m)
      linarith

theorem ClosestCount.unique {m : Nat} (hm : ClosestCount x m) (hn : ClosestCount x n) : m = n := by
  wlog less : m < n generalizing m n
  · rcases Nat.lt_or_ge n m with greater | le
    · exact (this hn hm greater).symm
    · omega
  -- `x` is half-way, both counts are even, so there is a closer one between them
  exfalso
  have equal := (hm.le n).antisymm (hn.le m)
  have evenLower := hm.even (Nat.ne_of_gt less) equal.symm
  have evenUpper := hn.even (Nat.ne_of_lt less) equal
  have afterLower := magnitudeValue_strictMono (Nat.lt_succ_self m)
  have beforeUpper := magnitudeValue_strictMono (show m + 1 < n by omega)
  rcases abs_eq_abs.mp equal with same | opposite
  · linarith
  · have closer : |x - magnitudeValue (m + 1)| < |x - magnitudeValue m| := by
      rw [abs_of_nonneg (show 0 ≤ x - magnitudeValue m by linarith), abs_lt]
      constructor <;> linarith
    exact absurd (hm.le (m + 1)) (not_le.mpr closer)

/-- From the middle between two neighbours on, the greater one or a still greater one is the
closest, if its count is the even one. -/
theorem ClosestCount.lt_iff (h : ClosestCount x n) (odd : b % 2 = 1) :
    b < n ↔ magnitudeValue b + magnitudeValue (b + 1) ≤ 2 * x := by
  have gap := magnitudeValue_strictMono (Nat.lt_succ_self b)
  refine ⟨fun greater => ?_, fun middle => ?_⟩
  · by_contra below
    have closest := (magnitudeValue_sub_le_distance (Nat.succ_le_of_lt greater)).trans (h.le b)
    rcases le_abs.mp closest with closest | closest <;> linarith
  · by_contra le
    have least := magnitudeValue_strictMono.monotone (Nat.le_of_not_lt le)
    have closest := h.le (b + 1)
    have distance : |x - magnitudeValue n| = x - magnitudeValue n := abs_of_nonneg (by linarith)
    rw [distance, le_abs] at closest
    have nearer : x - magnitudeValue n ≤ magnitudeValue (b + 1) - x :=
      closest.elim (fun h => by linarith) (fun h => by linarith)
    -- only the middle is left, and there the lower neighbour would be the even one
    have same : n = b := magnitudeValue_strictMono.injective (by linarith)
    subst same
    have even : n % 2 = 0 := by
      refine h.even (Nat.succ_ne_self n) ?_
      rw [distance, abs_of_nonpos (by linarith)]
      linarith
    omega

/-! ## Rounding -/

/-- The grid that has a place for a number of units has it between its ends. -/
theorem grid_of_log2 (q : Nat) :
    q / pow 2 (q.log2 - 23) < pow 2 24 ∧
      (q.log2 - 23 = 0 ∨ pow 2 23 ≤ q / pow 2 (q.log2 - 23)) := by
  show q / 2 ^ (q.log2 - 23) < 2 ^ 24 ∧ (q.log2 - 23 = 0 ∨ 2 ^ 23 ≤ q / 2 ^ (q.log2 - 23))
  constructor
  · rw [Nat.div_lt_iff_lt_mul (Nat.two_pow_pos _), ← Nat.pow_add]
    exact Nat.lt_of_lt_of_le Nat.lt_log2_self (Nat.pow_le_pow_right (by decide) (by omega))
  · by_cases coarse : q.log2 - 23 = 0
    · exact .inl coarse
    · have positive : q ≠ 0 := by
        rintro rfl
        exact coarse rfl
      have exponent : 23 + (q.log2 - 23) = q.log2 := by omega
      rw [Nat.le_div_iff_mul_le (Nat.two_pow_pos _), ← Nat.pow_add, exponent]
      exact .inr (Nat.log2_self_le positive)

/-- A quotient of units lies between two neighbours on its grid, and its remainder says to which it
is closer. -/
theorem between_neighbours {num den k f r : Nat} (positive : 0 < den) (inside : f < pow 2 24)
    (bottom : k = 0 ∨ pow 2 23 ≤ f) (split : den * 2 ^ k * f + r = num) (small : r < den * 2 ^ k)
    (quotient : x = num / den / 2 ^ 149) (grid : b = k * pow 2 23 + f) :
    (magnitudeValue b ≤ x ∧ x ≤ magnitudeValue (b + 1)) ∧
      (x - magnitudeValue b ≤ magnitudeValue (b + 1) - x ↔ 2 * r ≤ den * 2 ^ k) ∧
      (magnitudeValue (b + 1) - x ≤ x - magnitudeValue b ↔ den * 2 ^ k ≤ 2 * r) := by
  have next : k = 0 ∨ pow 2 23 ≤ f + 1 := bottom.imp_right fun le => Nat.le_succ_of_le le
  have scale : (0 : ℚ) < den * 2 ^ 149 := by positivity
  have exact : (num : ℚ) = den * 2 ^ k * f + r := by exact_mod_cast split.symm
  have lower : x - magnitudeValue b = r / (den * 2 ^ 149) := by
    rw [grid, magnitudeValue, units_grid inside.le bottom, quotient, exact]
    push_cast
    field_simp
    ring
  have upper : magnitudeValue (b + 1) - x = (den * 2 ^ k - r) / (den * 2 ^ 149) := by
    rw [grid, Nat.add_assoc, magnitudeValue, units_grid inside next, quotient, exact]
    push_cast
    field_simp
    ring
  have smallCast : (r : ℚ) < den * 2 ^ k := by exact_mod_cast small
  refine ⟨⟨?_, ?_⟩, ?_, ?_⟩
  · rw [← sub_nonneg, lower]
    positivity
  · rw [← sub_nonneg, upper]
    exact div_nonneg (by linarith) scale.le
  · rw [lower, upper, div_le_div_iff_of_pos_right scale, le_sub_iff_add_le, ← two_mul]
    exact_mod_cast Iff.rfl
  · rw [lower, upper, div_le_div_iff_of_pos_right scale, sub_le_iff_le_add, ← two_mul]
    exact_mod_cast Iff.rfl

theorem closestCount_nearestCount {num den : Nat} (positive : 0 < den)
    (quotient : x = num / den / 2 ^ 149) : ClosestCount x (nearestCount num den) := by
  obtain ⟨inside, bottom⟩ := grid_of_log2 (num / den)
  unfold nearestCount
  dsimp only
  rw [Nat.div_div_eq_div_mul] at inside bottom
  generalize (num / den).log2 - 23 = k at inside bottom ⊢
  obtain ⟨b, grid⟩ : ∃ b, b = k * pow 2 23 + num / (den * pow 2 k) := ⟨_, rfl⟩
  have parity : b % 2 = num / (den * pow 2 k) % 2 := by
    change b = k * 8388608 + num / (den * pow 2 k) at grid
    omega
  obtain ⟨⟨above, below⟩, lower, upper⟩ := between_neighbours positive inside bottom
    (Nat.div_add_mod num (den * 2 ^ k))
    (Nat.mod_lt num (Nat.mul_pos positive (Nat.two_pow_pos k))) quotient grid
  rcases roundHalfEven_cases num (den * pow 2 k) with ⟨down, near, even⟩ | ⟨up, near, even⟩
  · rw [down, ← grid]
    refine closestCount_lower above (lower.mpr near) fun tie => ?_
    rw [parity]
    exact even (Nat.le_antisymm near (upper.mp tie.ge))
  · rw [up, ← Nat.add_assoc, ← grid]
    refine closestCount_upper below (upper.mpr near) fun tie => ?_
    have := even (Nat.le_antisymm (lower.mp tie.le) near)
    omega

/-! ## Overflow -/

theorem magnitudeValue_largest :
    magnitudeValue (finiteCount - 1) = (2 ^ 24 - 1) * 2 ^ 104 := by
  have grid : units (253 * pow 2 23 + 16777215) = 16777215 * 2 ^ 253 :=
    units_grid (by decide) (by decide)
  show (units (253 * pow 2 23 + 16777215) : ℚ) / 2 ^ 149 = (2 ^ 24 - 1) * 2 ^ 104
  rw [grid]
  norm_num

theorem magnitudeValue_finiteCount : magnitudeValue finiteCount = 2 ^ 128 := by
  have grid : units (254 * pow 2 23 + 8388608) = 8388608 * 2 ^ 254 :=
    units_grid (by decide) (by decide)
  show (units (254 * pow 2 23 + 8388608) : ℚ) / 2 ^ 149 = 2 ^ 128
  rw [grid]
  norm_num

theorem ClosestCount.finiteCount_le_iff (h : ClosestCount x n) :
    finiteCount ≤ n ↔ overflow ≤ x := by
  have middle : magnitudeValue (finiteCount - 1) + magnitudeValue finiteCount = 2 * overflow := by
    rw [magnitudeValue_largest, magnitudeValue_finiteCount, overflow]
    norm_num
  have beyond : finiteCount - 1 < n ↔ _ := h.lt_iff (by decide)
  rw [show finiteCount - 1 + 1 = finiteCount by decide, middle] at beyond
  rw [← mul_le_mul_iff_right₀ (zero_lt_two' ℚ), ← beyond]
  show 2139095040 ≤ n ↔ 2139095039 < n
  omega

/-! ## The nearest number -/

/-- A quotient as one of units. -/
theorem div_eq_units (num den : Nat) :
    (num : ℚ) / den = (num * pow 2 149 : Nat) / den / 2 ^ 149 := by
  show (num : ℚ) / den = (num * 2 ^ 149 : Nat) / den / 2 ^ 149
  rw [Nat.cast_mul, Nat.cast_pow, Nat.cast_ofNat, div_right_comm,
    mul_div_cancel_right₀ _ (by positivity)]

theorem isNearest_nearest {num den : Nat} (negative : Bool) (positive : 0 < den)
    (quotient : x = num / den / 2 ^ 149) : IsNearest negative x (nearest negative num den) := by
  have closest := closestCount_nearestCount positive quotient
  unfold nearest
  dsimp only
  split
  · exact .finite _ closest
  · exact .infinite closest (by omega)

namespace IsNearest

variable {negative : Bool} {v w : Binary32}

theorem unique (hv : IsNearest negative x v) (hw : IsNearest negative x w) : v = w := by
  cases hv with
  | finite m closest =>
    cases hw with
    | finite m' closest' => rw [Fin.ext (closest.unique closest')]
    | infinite closest' beyond => exact absurd (closest.unique closest') (by omega)
  | infinite closest beyond =>
    cases hw with
    | finite m' closest' => exact absurd (closest.unique closest') (by omega)
    | infinite => rfl

/-- Up to half of the least magnitude that is not zero, zero is the nearest. -/
theorem zero (nonneg : 0 ≤ x) (tiny : x ≤ 1 / 2 ^ 150) :
    IsNearest negative x (.finite negative 0) := by
  have one : magnitudeValue 1 = 2 * (1 / 2 ^ 150) := by
    rw [magnitudeValue, units_of_lt (by decide)]
    norm_num
  refine .finite 0 (closestCount_lower ?_ ?_ fun _ => rfl)
  · exact magnitudeValue_zero.trans_le nonneg
  · show x - magnitudeValue 0 ≤ magnitudeValue 1 - x
    rw [magnitudeValue_zero, one]
    linarith

/-- From `overflow` on the infinity is the nearest. -/
theorem infinite_of_le (large : overflow ≤ x) : IsNearest negative x (.infinite negative) := by
  have nonneg : 0 ≤ x := le_trans (by norm_num [overflow]) large
  have numerator : (x.num.toNat : ℚ) = x.num := by
    exact_mod_cast Int.toNat_of_nonneg (Rat.num_nonneg.mpr nonneg)
  have closest : ClosestCount x (nearestCount (x.num.toNat * pow 2 149) x.den) := by
    refine closestCount_nearestCount x.pos ?_
    rw [← div_eq_units, numerator, x.num_div_den]
  exact .infinite closest (closest.finiteCount_le_iff.mpr large)

theorem eq_infinite_or_finite (h : IsNearest negative x v) :
    (v = .infinite negative ∧ overflow ≤ x) ∨
      ∃ magnitude, v = .finite negative magnitude ∧ x < overflow := by
  cases h with
  | finite m closest =>
    refine .inr ⟨m, rfl, not_le.mp ?_⟩
    rw [← closest.finiteCount_le_iff]
    omega
  | infinite closest beyond => exact .inl ⟨rfl, closest.finiteCount_le_iff.mp beyond⟩

end IsNearest

end PolishCalc.Binary32
