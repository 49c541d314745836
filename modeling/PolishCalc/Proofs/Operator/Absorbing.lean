import PolishCalc.Operator

/-!
# Operands that decide the result

Once a sum or a product is not-a-number it stays so, and once a product has had
the factor zero it is zero or not-a-number from there on. So an operator on
operands among which is not-a-number gives not-a-number
(`Operator.apply_eq_nan_of_mem`), and a quotient with the divisor zero is not
finite (`Operator.isFinite_divide_of_isZero`), whatever the other operands are.
-/

namespace PolishCalc

/-- A property that one element brings about, and that no element takes away, holds at the end. -/
theorem foldl_of_mem {α β : Type} {f : β → α → β} {p : β → Prop} {a : α} {xs : List α}
    (mem : a ∈ xs) (enter : ∀ b, p (f b a)) (keep : ∀ b x, p b → p (f b x)) (b : β) :
    p (xs.foldl f b) := by
  obtain ⟨before, after, rfl⟩ := List.append_of_mem mem
  rw [List.foldl_append, List.foldl_cons]
  exact List.foldlRecOn after f (enter _) fun b hb x _ => keep b x hb

namespace Binary32

open Nat (pow)

/-! ## Zero as a factor -/

/-- Positive or negative zero. -/
def IsZero (x : Binary32) : Prop :=
  ∃ negative, x = finite negative 0

/-- Zero, or not-a-number. -/
def Vanishes (x : Binary32) : Prop :=
  x.IsZero ∨ x = nan

theorem finite_mul_finite (s t : Bool) (m n : Fin finiteCount) :
    finite s m * finite t n = nearest (s ^^ t) (units m * units n) (pow 2 149) :=
  rfl

theorem finite_div_finite (s t : Bool) (m n : Fin finiteCount) :
    finite s m / finite t n =
      if n = 0 then if m = 0 then nan else infinite (s ^^ t)
      else nearest (s ^^ t) (units m * pow 2 149) (units n) :=
  rfl

theorem units_zero : units (0 : Fin finiteCount) = 0 :=
  rfl

theorem nearestCount_zero (den : Nat) : nearestCount 0 den = 0 := by
  simp [nearestCount, roundHalfEven]

theorem nearest_zero (negative : Bool) (den : Nat) :
    nearest negative 0 den = finite negative 0 := by
  simp only [nearest, nearestCount_zero]
  rfl

/-- An infinity times zero is not-a-number. -/
theorem vanishes_mul_of_isZero (x : Binary32) {z : Binary32} (h : z.IsZero) : Vanishes (x * z) := by
  obtain ⟨t, rfl⟩ := h
  cases x with
  | nan => exact .inr rfl
  | infinite s => exact .inr rfl
  | finite s m =>
    exact .inl ⟨s ^^ t, by rw [finite_mul_finite, units_zero, Nat.mul_zero, nearest_zero]⟩

theorem Vanishes.mul {x : Binary32} (h : x.Vanishes) (y : Binary32) : Vanishes (x * y) := by
  rcases h with ⟨s, rfl⟩ | rfl
  · cases y with
    | nan => exact .inr rfl
    | infinite t => exact .inr rfl
    | finite t n =>
      exact .inl ⟨s ^^ t, by rw [finite_mul_finite, units_zero, Nat.zero_mul, nearest_zero]⟩
  · exact .inr (nan_mul y)

theorem isFinite_div_of_vanishes (x : Binary32) {y : Binary32} (h : y.Vanishes) :
    (x / y).isFinite = false := by
  rcases h with ⟨t, rfl⟩ | rfl
  · cases x with
    | nan => rfl
    | infinite s => rfl
    | finite s m =>
      rw [finite_div_finite, if_pos rfl]
      split <;> rfl
  · rw [div_nan]
    rfl

end Binary32

/-! ## Operators -/

namespace Operator

open Binary32

theorem sum_eq_nan_of_mem {xs : List Binary32} (h : nan ∈ xs) : sum xs = nan := by
  refine foldl_of_mem (p := (· = nan)) h add_nan ?_ _
  rintro _ x rfl
  exact nan_add x

theorem product_eq_nan_of_mem {xs : List Binary32} (h : nan ∈ xs) : product xs = nan := by
  refine foldl_of_mem (p := (· = nan)) h mul_nan ?_ _
  rintro _ x rfl
  exact nan_mul x

theorem apply_eq_nan_of_mem (operator : Operator) {xs : List Binary32} (h : nan ∈ xs) :
    operator.apply xs = nan := by
  cases operator with
  | add => exact sum_eq_nan_of_mem h
  | multiply => exact product_eq_nan_of_mem h
  | subtract =>
    cases h with
    | head xs => exact nan_sub (sum xs)
    | tail x h => rw [apply, sum_eq_nan_of_mem h, sub_nan]
  | divide =>
    cases h with
    | head xs => exact nan_div (product xs)
    | tail x h => rw [apply, product_eq_nan_of_mem h, div_nan]

theorem vanishes_product_of_isZero {xs : List Binary32} {z : Binary32} (mem : z ∈ xs)
    (zero : z.IsZero) : Vanishes (product xs) :=
  foldl_of_mem mem (fun x => vanishes_mul_of_isZero x zero) (fun _ y h => h.mul y) _

theorem isFinite_divide_of_isZero (x : Binary32) {xs : List Binary32} {z : Binary32} (mem : z ∈ xs)
    (zero : z.IsZero) : (divide.apply (x :: xs)).isFinite = false :=
  isFinite_div_of_vanishes x (vanishes_product_of_isZero mem zero)

end Operator

end PolishCalc
