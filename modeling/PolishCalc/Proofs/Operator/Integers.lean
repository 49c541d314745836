import Mathlib.Algebra.BigOperators.Ring.List
import Mathlib.Algebra.Order.BigOperators.Group.Multiset
import Mathlib.Data.List.Perm.Basic
import PolishCalc.Operator
import PolishCalc.Proofs.Binary32.Exact

/-!
# Operators on integers

Integers up to `2 ^ 24` are binary32 numbers. A bound on what is left to add, to
multiply or to divide by keeps every intermediate result an integer of that
size, so no step rounds: each bound is kept by a step (`SumFits.step`,
`ProductFits.step`, `QuotientFits.step`) and so along a fold
(`exists_isInt_foldl`). The operators are exact on such integers, summands and
factors may come in any order, and a difference or a quotient comes out the same
if its operands are taken off one by one (`Operator.integers_exact`).
-/

namespace PolishCalc

open Binary32 (IsInt isInt_zero isInt_one)

/-! ## Bounds that a step keeps -/

/-- From `done` on, with the summands `left` to come, no partial sum is too large. -/
structure SumFits (total done : Int) (left : List Int) : Prop where
  small : |done| + (left.map (|·|)).sum ≤ 2 ^ 24
  total_eq : done + left.sum = total

structure ProductFits (total done : Int) (left : List Int) : Prop where
  nonzero : ∀ n ∈ left, n ≠ 0
  small : |total| ≤ 2 ^ 24
  total_eq : done * left.prod = total

/-- Each of the divisors `left` goes into what is left of the dividend. -/
structure QuotientFits (quotient dividend : Int) (left : List Int) : Prop where
  nonzero : ∀ n ∈ left, n ≠ 0
  small : |dividend| ≤ 2 ^ 24
  dividend_eq : quotient * left.prod = dividend

section Steps

variable {x y : Binary32} {total m n : Int} {left : List Int}

theorem SumFits.step (fits : SumFits total m (n :: left)) (hx : x.IsInt m) (hy : y.IsInt n) :
    ∃ k, (x + y).IsInt k ∧ SumFits total k left := by
  obtain ⟨small, total_eq⟩ := fits
  rw [List.map_cons, List.sum_cons] at small
  have triangle := abs_add_le m n
  have rest : 0 ≤ (left.map (|·|)).sum := List.sum_nonneg (by simp)
  refine ⟨m + n, hx.add hy (by omega), by omega, ?_⟩
  rw [← total_eq, List.sum_cons, add_assoc]

/-- A factor that is not zero makes nothing smaller. -/
theorem abs_le_abs_mul {a b : Int} (nonzero : b ≠ 0) : |a| ≤ |a * b| := by
  rw [abs_mul]
  exact le_mul_of_one_le_right (abs_nonneg a) (Int.one_le_abs nonzero)

theorem prod_ne_zero_of_forall {ns : List Int} (nonzero : ∀ n ∈ ns, n ≠ 0) : ns.prod ≠ 0 :=
  List.prod_ne_zero fun mem => nonzero 0 mem rfl

theorem abs_prod (ns : List Int) : |ns.prod| = (ns.map (|·|)).prod :=
  map_list_prod (absHom : Int →*₀ Int) ns

theorem ProductFits.step (fits : ProductFits total m (n :: left)) (hx : x.IsInt m)
    (hy : y.IsInt n) : ∃ k, (x * y).IsInt k ∧ ProductFits total k left := by
  obtain ⟨nonzero, small, total_eq⟩ := fits
  rw [List.prod_cons, ← mul_assoc] at total_eq
  have rest := (List.forall_mem_cons.mp nonzero).2
  have smaller : |m * n| ≤ |total| := total_eq ▸ abs_le_abs_mul (prod_ne_zero_of_forall rest)
  exact ⟨m * n, hx.mul hy (smaller.trans small), rest, small, total_eq⟩

theorem QuotientFits.step (fits : QuotientFits total m (n :: left)) (hx : x.IsInt m)
    (hy : y.IsInt n) : ∃ k, (x / y).IsInt k ∧ QuotientFits total k left := by
  obtain ⟨nonzero, small, dividend_eq⟩ := fits
  obtain ⟨divisor, rest⟩ := List.forall_mem_cons.mp nonzero
  have split : total * left.prod * n = m := by
    rw [← dividend_eq, List.prod_cons]
    ring
  have smaller : |total * left.prod| ≤ 2 ^ 24 := (abs_le_abs_mul divisor).trans (split ▸ small)
  exact ⟨total * left.prod, (split ▸ hx).div hy divisor smaller, rest, smaller, rfl⟩

end Steps

/-! ## Folds -/

section Folds

variable {x : Binary32} {xs : List Binary32} {n : Int} {ns : List Int}

/-- What a step keeps between the intermediate result and the operands that are left holds at the
end, where none are left. -/
theorem exists_isInt_foldl {op : Binary32 → Binary32 → Binary32} {Fits : Int → List Int → Prop}
    (step : ∀ {x y m n left}, Fits m (n :: left) → x.IsInt m → y.IsInt n →
      ∃ k, (op x y).IsInt k ∧ Fits k left)
    (operands : List.Forall₂ IsInt xs ns) (hx : x.IsInt n) (fits : Fits n ns) :
    ∃ k, (xs.foldl op x).IsInt k ∧ Fits k [] := by
  induction operands generalizing x n with
  | nil => exact ⟨n, hx, fits⟩
  | cons head _ ih =>
    obtain ⟨k, hxy, fits⟩ := step fits hx head
    exact ih hxy fits

theorem isInt_foldl_add (operands : List.Forall₂ IsInt xs ns) (hx : x.IsInt n)
    (small : |n| + (ns.map (|·|)).sum ≤ 2 ^ 24) : (xs.foldl (· + ·) x).IsInt (n + ns.sum) := by
  obtain ⟨k, result, fits⟩ := exists_isInt_foldl SumFits.step operands hx ⟨small, rfl⟩
  rwa [← fits.total_eq, List.sum_nil, add_zero]

/-- Taking operands off is adding their negatives. -/
theorem isInt_foldl_sub (operands : List.Forall₂ IsInt xs ns) (hx : x.IsInt n)
    (small : |n| + (ns.map (|·|)).sum ≤ 2 ^ 24) : (xs.foldl (· - ·) x).IsInt (n - ns.sum) := by
  have negatives : List.Forall₂ IsInt (xs.map (-·)) (ns.map (-·)) := by
    rw [List.forall₂_map_left_iff, List.forall₂_map_right_iff]
    exact operands.imp fun _ _ h => IsInt.neg h
  have added := isInt_foldl_add negatives hx (by simpa [Function.comp_def] using small)
  rwa [List.foldl_map, ← List.sum_neg, ← sub_eq_add_neg] at added

theorem isInt_foldl_mul (operands : List.Forall₂ IsInt xs ns) (hx : x.IsInt n)
    (nonzero : ∀ m ∈ ns, m ≠ 0) (small : |n * ns.prod| ≤ 2 ^ 24) :
    (xs.foldl (· * ·) x).IsInt (n * ns.prod) := by
  obtain ⟨k, result, fits⟩ := exists_isInt_foldl ProductFits.step operands hx ⟨nonzero, small, rfl⟩
  rwa [← fits.total_eq, List.prod_nil, mul_one]

theorem isInt_foldl_div {q : Int} (operands : List.Forall₂ IsInt xs ns) (hx : x.IsInt (q * ns.prod))
    (nonzero : ∀ m ∈ ns, m ≠ 0) (small : |q * ns.prod| ≤ 2 ^ 24) :
    (xs.foldl (· / ·) x).IsInt q := by
  obtain ⟨k, result, fits⟩ := exists_isInt_foldl QuotientFits.step operands hx ⟨nonzero, small, rfl⟩
  rwa [← fits.dividend_eq, List.prod_nil, mul_one] at result

end Folds

/-! ## Divisors of zero -/

namespace Binary32

/-- The absolute value is at least one, be it infinite. -/
def AtLeastOne : Binary32 → Prop
  | nan => False
  | infinite _ => True
  | finite _ magnitude => 1 ≤ magnitudeValue magnitude

variable {x y : Binary32} {n : Int}

theorem AtLeastOne.ne_zero {negative : Bool} {magnitude : Fin finiteCount}
    (h : AtLeastOne (finite negative magnitude)) : magnitude ≠ 0 := by
  rintro rfl
  have : 1 ≤ magnitudeValue 0 := h
  rw [magnitudeValue_zero] at this
  linarith

theorem IsInt.atLeastOne (h : x.IsInt n) (nonzero : n ≠ 0) : x.AtLeastOne := by
  obtain ⟨s, m, rfl, value⟩ := toRat?_eq_some_iff.mp h
  show 1 ≤ magnitudeValue m
  rw [← abs_signed s (magnitudeValue_nonneg m), value]
  exact_mod_cast Int.one_le_abs nonzero

theorem AtLeastOne.mul (hx : x.AtLeastOne) (hy : y.AtLeastOne) : (x * y).AtLeastOne := by
  cases x with
  | nan => exact hx.elim
  | infinite s =>
    cases y with
    | nan => exact hy.elim
    | infinite t => exact trivial
    | finite t n =>
      show AtLeastOne (if n = 0 then nan else infinite (s ^^ t))
      rw [if_neg hy.ne_zero]
      exact trivial
  | finite s m =>
    cases y with
    | nan => exact hy.elim
    | infinite t =>
      show AtLeastOne (if m = 0 then nan else infinite (s ^^ t))
      rw [if_neg hx.ne_zero]
      exact trivial
    | finite t n =>
      have large : magnitudeValue (127 * Nat.pow 2 23) ≤ magnitudeValue m * magnitudeValue n := by
        rw [magnitudeValue_one]
        exact one_le_mul_of_one_le_of_one_le hx hy
      have rounded := isNearest_mul s t m n
      generalize finite s m * finite t n = product at rounded
      cases rounded with
      | infinite => exact trivial
      | finite k closest =>
        have kept := closest.magnitudeValue_le large
        rwa [magnitudeValue_one] at kept

theorem IsInt.zero_div (hx : x.IsInt 0) (hy : y.AtLeastOne) : (x / y).IsInt 0 := by
  obtain ⟨s, m, rfl, value⟩ := toRat?_eq_some_iff.mp hx
  cases y with
  | nan => exact hy.elim
  | infinite t => exact isInt_finite_zero (s ^^ t)
  | finite t n =>
    have dividend : magnitudeValue m = 0 := by
      rw [← abs_signed s (magnitudeValue_nonneg m), value, Int.cast_zero, abs_zero]
    have rounded := isNearest_div s t m hy.ne_zero
    rw [dividend, zero_div] at rounded
    rw [rounded.unique (.zero le_rfl (by positivity))]
    exact isInt_finite_zero (s ^^ t)

end Binary32

/-! ## Operators -/

namespace Operator

section Exact

variable {x : Binary32} {xs : List Binary32} {n q : Int} {ns : List Int}

theorem isInt_sum (operands : List.Forall₂ IsInt xs ns) (small : (ns.map (|·|)).sum ≤ 2 ^ 24) :
    (sum xs).IsInt ns.sum := by
  have exact := isInt_foldl_add operands isInt_zero (by simpa using small)
  rwa [zero_add] at exact

theorem isInt_product (operands : List.Forall₂ IsInt xs ns) (nonzero : ∀ m ∈ ns, m ≠ 0)
    (small : |ns.prod| ≤ 2 ^ 24) : (product xs).IsInt ns.prod := by
  have exact := isInt_foldl_mul operands isInt_one nonzero (by simpa using small)
  rwa [one_mul] at exact

theorem atLeastOne_foldl_mul (operands : List.Forall₂ IsInt xs ns) (nonzero : ∀ m ∈ ns, m ≠ 0)
    (hx : x.AtLeastOne) : (xs.foldl (· * ·) x).AtLeastOne := by
  induction operands generalizing x with
  | nil => exact hx
  | cons head _ ih =>
    obtain ⟨first, rest⟩ := List.forall_mem_cons.mp nonzero
    exact ih rest (hx.mul (head.atLeastOne first))

theorem isInt_subtract (operands : List.Forall₂ IsInt xs ns) (hx : x.IsInt n)
    (small : |n| + (ns.map (|·|)).sum ≤ 2 ^ 24) :
    (subtract.apply (x :: xs)).IsInt (n - ns.sum) := by
  have triangle : |ns.sum| ≤ (ns.map (|·|)).sum := by
    simpa using Multiset.le_sum_of_subadditive (|·|) abs_zero.le abs_add_le (ns : Multiset Int)
  have difference := abs_sub n ns.sum
  have first := abs_nonneg n
  exact hx.sub (isInt_sum operands (by omega)) (by omega)

/-- A divisor too large to be exact leaves a zero as it is. -/
theorem isInt_divide (operands : List.Forall₂ IsInt xs ns) (hx : x.IsInt (q * ns.prod))
    (nonzero : ∀ m ∈ ns, m ≠ 0) (small : |q * ns.prod| ≤ 2 ^ 24) :
    (divide.apply (x :: xs)).IsInt q := by
  by_cases zero : q = 0
  · subst zero
    rw [zero_mul] at hx
    exact hx.zero_div (atLeastOne_foldl_mul operands nonzero (isInt_one.atLeastOne one_ne_zero))
  · have divisor : |ns.prod| ≤ 2 ^ 24 := by
      rw [mul_comm] at small
      exact (abs_le_abs_mul zero).trans small
    have quotient : |q| ≤ 2 ^ 24 := (abs_le_abs_mul (prod_ne_zero_of_forall nonzero)).trans small
    exact hx.div (isInt_product operands nonzero divisor) (prod_ne_zero_of_forall nonzero) quotient

end Exact

/-- Operators on integers do not round as long as the absolute values of the summands add up to
`2 ^ 24` at most, or those of factors other than zero multiply to `2 ^ 24` at most, or the dividend
is no larger and the divisors divide it exactly. Summands and factors may come in any order, and
taking off one operand after the other gives the same difference and the same quotient. -/
theorem integers_exact {x : Binary32} {xs : List Binary32} {n : Int} {ns : List Int}
    (hx : x.IsInt n) (hxs : List.Forall₂ IsInt xs ns) :
    (((n :: ns).map (|·|)).sum ≤ 2 ^ 24 →
      (∀ ys, ys.Perm (x :: xs) → (add.apply ys).IsInt (n :: ns).sum) ∧
      (subtract.apply (x :: xs)).IsInt (n - ns.sum) ∧ (xs.foldl (· - ·) x).IsInt (n - ns.sum)) ∧
    ((∀ m ∈ n :: ns, m ≠ 0) → ((n :: ns).map (|·|)).prod ≤ 2 ^ 24 →
      ∀ ys, ys.Perm (x :: xs) → (multiply.apply ys).IsInt (n :: ns).prod) ∧
    ∀ q, (∀ m ∈ ns, m ≠ 0) → |n| ≤ 2 ^ 24 → n = q * ns.prod →
      (divide.apply (x :: xs)).IsInt q ∧ (xs.foldl (· / ·) x).IsInt q := by
  have inOrder (ys : List Binary32) (perm : ys.Perm (x :: xs)) :
      ∃ ms, List.Forall₂ IsInt ys ms ∧ ms.Perm (n :: ns) :=
    List.perm_comp_forall₂ perm (.cons hx hxs)
  refine ⟨fun small => ⟨fun ys perm => ?_, ?_⟩, fun nonzero small ys perm => ?_,
    fun q nonzero small multiple => ?_⟩
  · obtain ⟨ms, operands, order⟩ := inOrder ys perm
    rw [← (order.map (|·|)).sum_eq] at small
    rw [← order.sum_eq]
    exact isInt_sum operands small
  · rw [List.map_cons, List.sum_cons] at small
    exact ⟨isInt_subtract hxs hx small, isInt_foldl_sub hxs hx small⟩
  · obtain ⟨ms, operands, order⟩ := inOrder ys perm
    rw [← abs_prod, ← order.prod_eq] at small
    rw [← order.prod_eq]
    exact isInt_product operands (fun m mem => nonzero m (order.mem_iff.mp mem)) small
  · subst multiple
    exact ⟨isInt_divide hxs hx nonzero small, isInt_foldl_div hxs hx nonzero small⟩

/-- Each bound is met, that on the product exactly. -/
theorem integers_exact_at_bound :
    let x : Binary32 := .ofBits 0x4B000000
    let xs : List Binary32 := [.ofBits 0xC0000000, .one]
    (x.IsInt 8388608 ∧ List.Forall₂ IsInt xs [-2, 1]) ∧
      ((add.apply [.one, x, .ofBits 0xC0000000]).IsInt 8388607 ∧
        (subtract.apply (x :: xs)).IsInt 8388609 ∧ (xs.foldl (· - ·) x).IsInt 8388609) ∧
      (multiply.apply [.ofBits 0xC0000000, .one, x]).IsInt (-16777216) ∧
      (divide.apply (x :: xs)).IsInt (-4194304) ∧ (xs.foldl (· / ·) x).IsInt (-4194304) := by
  intro x xs
  have hx : x.toRat? = some 8388608 := by decide +kernel
  have minusTwo : (Binary32.ofBits 0xC0000000).toRat? = some (-2) := by decide +kernel
  have hxs : List.Forall₂ IsInt xs [-2, 1] := .cons minusTwo (.cons isInt_one .nil)
  obtain ⟨sums, products, quotients⟩ := integers_exact hx hxs
  obtain ⟨added, subtracted, takenOff⟩ := sums (by decide)
  have multiplied := products (by decide) (by decide)
  have divided := quotients (-4194304) (by decide) (by decide) (by decide)
  refine ⟨⟨hx, hxs⟩, ⟨added _ ?_, subtracted, takenOff⟩, multiplied _ ?_, divided⟩
  · decide
  · decide

end Operator

end PolishCalc
