import Mathlib.Data.Rat.Cast.Order
import Mathlib.Order.Monotone.Basic
import Mathlib.Tactic.Positivity
import PolishCalc.Binary32.Basic

/-!
# The values of magnitudes

The magnitudes lie on grids: those from `2 ^ (k + 23)` to `2 ^ (k + 24)` units
are the multiples of `2 ^ k` units there (`units_grid`), and the grids share
their ends. So a magnitude with a greater count has a greater value
(`magnitudeValue_strictMono`).
-/

namespace PolishCalc.Binary32

open Nat (pow)

/-! ## Grids -/

/-- On the grid with the gap `2 ^ k` the counts are consecutive, up to its upper end. -/
theorem units_grid {k r : Nat} (top : r ≤ pow 2 24) (bottom : k = 0 ∨ pow 2 23 ≤ r) :
    units (k * pow 2 23 + r) = r * 2 ^ k := by
  change r ≤ 16777216 at top
  change k = 0 ∨ 8388608 ≤ r at bottom
  by_cases first : r < 8388608
  · obtain rfl : k = 0 := by omega
    rw [Nat.zero_mul, Nat.zero_add, units_of_lt first, Nat.pow_zero, Nat.mul_one]
  · show units (k * 8388608 + r) = r * 2 ^ k
    unfold units
    show (if k * 8388608 + r < 8388608 then k * 8388608 + r else
      (8388608 + (k * 8388608 + r) % 8388608) * 2 ^ ((k * 8388608 + r) / 8388608 - 1)) = r * 2 ^ k
    rw [if_neg (by omega)]
    by_cases last : r = 16777216
    · -- the upper end is the lower one of the next grid
      have quotient : (k * 8388608 + r) / 8388608 - 1 = k + 1 := by omega
      have remainder : (k * 8388608 + r) % 8388608 = 0 := by omega
      rw [quotient, remainder, last, Nat.pow_succ]
      omega
    · have quotient : (k * 8388608 + r) / 8388608 - 1 = k := by omega
      have remainder : 8388608 + (k * 8388608 + r) % 8388608 = r := by omega
      rw [quotient, remainder]

theorem exists_grid (n : Nat) :
    ∃ k r, n = k * pow 2 23 + r ∧ r < pow 2 24 ∧ (k = 0 ∨ pow 2 23 ≤ r) := by
  show ∃ k r, n = k * 8388608 + r ∧ r < 16777216 ∧ (k = 0 ∨ 8388608 ≤ r)
  refine ⟨n / 8388608 - 1, n - (n / 8388608 - 1) * 8388608, ?_, ?_, ?_⟩ <;> omega

theorem units_strictMono : StrictMono units := by
  apply strictMono_nat_of_lt_succ
  intro n
  obtain ⟨k, r, rfl, inside, bottom⟩ := exists_grid n
  have next : k = 0 ∨ pow 2 23 ≤ r + 1 := bottom.imp_right fun le => Nat.le_succ_of_le le
  rw [Nat.add_assoc, units_grid inside.le bottom, units_grid inside next]
  exact Nat.mul_lt_mul_of_pos_right (Nat.lt_succ_self r) (Nat.two_pow_pos k)

/-! ## Values -/

/-- The value of the `n`-th magnitude. -/
def magnitudeValue (n : Nat) : ℚ :=
  units n / 2 ^ 149

theorem magnitudeValue_strictMono : StrictMono magnitudeValue := by
  intro m n less
  unfold magnitudeValue
  have : (units m : ℚ) < units n := by exact_mod_cast units_strictMono less
  gcongr

theorem magnitudeValue_zero : magnitudeValue 0 = 0 := by
  simp [magnitudeValue, units_of_lt]

end PolishCalc.Binary32
