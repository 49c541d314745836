import PolishCalc.Expr.Basic

/-!
# Expressions inside expressions

`e.Reaches x` says that operand positions alone lead from `e` to `x`: those are
the expressions that are evaluated when `e` is. `e.Contains x` lets heads lead
to `x` too. `Expr.Replaced` puts another expression in the place of one that is
reached. What holds of a form as soon as it holds of its head and its operands
holds of all expressions (`Expr.induction`).
-/

namespace PolishCalc

mutual

theorem Expr.induction {p : Expr → Prop} (leaf : ∀ text, p (.leaf text))
    (form : ∀ head operands, p head → (∀ x ∈ operands.toList, p x) → p (.form head operands))
    (e : Expr) : p e := by
  cases e with
  | leaf text => exact leaf text
  | form head operands =>
    exact form head operands (head.induction leaf form) (operands.forall_mem_toList leaf form)

theorem Operands.forall_mem_toList {p : Expr → Prop} (leaf : ∀ text, p (.leaf text))
    (form : ∀ head operands, p head → (∀ x ∈ operands.toList, p x) → p (.form head operands))
    (operands : Operands) : ∀ x ∈ operands.toList, p x := by
  cases operands with
  | two first second =>
    simpa [Operands.toList] using ⟨first.induction leaf form, second.induction leaf form⟩
  | more first rest =>
    simpa [Operands.toList] using
      ⟨first.induction leaf form, rest.forall_mem_toList leaf form⟩

end

theorem Operands.depth_le_of_mem {operands : Operands} {x : Expr} (h : x ∈ operands.toList) :
    x.depth ≤ operands.depth :=
  operands.depth_le_iff.mp (Nat.le_refl _) x h

namespace Expr

/-- Operand positions, none or more, lead from the first expression to the second. -/
inductive Reaches : Expr → Expr → Prop where
  | refl (e : Expr) : Reaches e e
  | operand {head x y : Expr} {operands : Operands} : x ∈ operands.toList → Reaches x y →
      Reaches (form head operands) y

theorem Reaches.depth_le {e x : Expr} (h : e.Reaches x) : x.depth ≤ e.depth := by
  induction h with
  | refl => exact Nat.le_refl _
  | operand mem _ ih =>
    have := Operands.depth_le_of_mem mem
    rw [depth]
    omega

/-- Head and operand positions, none or more, lead from the first expression to the second. -/
inductive Contains : Expr → Expr → Prop where
  | refl (e : Expr) : Contains e e
  | child {e x y : Expr} : x ∈ e.children → Contains x y → Contains e y

/-- The second expression is the first one with `z` in the place of `x`, to which as many operand
positions lead as the level says. -/
inductive Replaced (x z : Expr) : (level : Nat) → Expr → Expr → Prop where
  | here : Replaced x z 0 x z
  | operand {level : Nat} {head a b : Expr} {operands operands' : Operands}
      {before after : List Expr} : operands.toList = before ++ a :: after →
      operands'.toList = before ++ b :: after → Replaced x z level a b →
      Replaced x z (level + 1) (form head operands) (form head operands')

/-- What is put in may go deeper than what was there, but from its own place. -/
theorem Replaced.depth_le {x z e e' : Expr} {level : Nat} (h : Replaced x z level e e') :
    e'.depth ≤ max e.depth (level + z.depth) := by
  induction h with
  | here => omega
  | @operand level head a b operands operands' before after was is _ ih =>
    have inside : operands'.depth ≤ max operands.depth (level + z.depth) := by
      have old := fun y (mem : y ∈ operands.toList) => Operands.depth_le_of_mem mem
      rw [was, List.forall_mem_append, List.forall_mem_cons] at old
      rw [Operands.depth_le_iff, is, List.forall_mem_append, List.forall_mem_cons]
      obtain ⟨oldBefore, oldHere, oldAfter⟩ := old
      refine ⟨fun y mem => ?_, by omega, fun y mem => ?_⟩
      · have := oldBefore y mem
        omega
      · have := oldAfter y mem
        omega
    simp only [depth]
    omega

end Expr

end PolishCalc
