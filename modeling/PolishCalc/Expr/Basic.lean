/-!
# Expressions

An expression is a leaf, which keeps the text of an atom, or a form: a head and
at least two operands, all of them expressions. That a form is never shorter is
part of the type. Whether a head names an operator and a leaf is a number is
not decided before evaluation.
-/

namespace PolishCalc

mutual

inductive Expr where
  | leaf (text : String)
  | form (head : Expr) (operands : Operands)
  deriving DecidableEq, Repr

/-- Two or more operands. -/
inductive Operands where
  | two (first second : Expr)
  | more (first : Expr) (rest : Operands)
  deriving DecidableEq, Repr

end

/-! ## Members -/

namespace Operands

def toList : Operands → List Expr
  | two first second => [first, second]
  | more first rest => first :: rest.toList

/-- The operands in a list, unless it has fewer than two. -/
def ofList? : List Expr → Option Operands
  | [] => none
  | [first, second] => some (two first second)
  | first :: rest => (ofList? rest).map (more first)

end Operands

namespace Expr

/-- The head and the operands of a form; none for a leaf. -/
def children : Expr → List Expr
  | leaf _ => []
  | form head operands => head :: operands.toList

/-- The form with the given children, unless they are fewer than three. -/
def ofChildren? : List Expr → Option Expr
  | [] => none
  | head :: operands => (Operands.ofList? operands).map (form head)

/-- The leaf that stands for a text that cannot be read. -/
def placeholder : Expr :=
  leaf "ERROR"

def isPlaceholder (e : Expr) : Bool :=
  e = placeholder

end Expr

/-! ## Depth and text -/

mutual

/-- How deeply forms are nested: 0 for a leaf and 1 for a form of leaves. -/
def Expr.depth : Expr → Nat
  | .leaf _ => 0
  | .form head operands => 1 + max head.depth operands.depth

/-- The depth of the deepest operand. -/
def Operands.depth : Operands → Nat
  | .two first second => max first.depth second.depth
  | .more first rest => max first.depth rest.depth

end

mutual

/-- The text of an expression: the children of a form stand between parentheses, with a space
between two neighbours. -/
def Expr.render : Expr → String
  | .leaf text => text
  | .form head operands => "(" ++ head.render ++ operands.render ++ ")"

/-- The text of the operands, each after a space. -/
def Operands.render : Operands → String
  | .two first second => " " ++ first.render ++ " " ++ second.render
  | .more first rest => " " ++ first.render ++ rest.render

end

/-! ## Lists of members -/

namespace Operands

theorem depth_le_iff (operands : Operands) {d : Nat} :
    operands.depth ≤ d ↔ ∀ e ∈ operands.toList, e.depth ≤ d := by
  cases operands with
  | two first second =>
    rw [depth, toList, Nat.max_le, List.forall_mem_cons, List.forall_mem_singleton]
  | more first rest => rw [depth, toList, Nat.max_le, List.forall_mem_cons, depth_le_iff rest]

theorem two_le_length_toList (operands : Operands) : 2 ≤ operands.toList.length := by
  cases operands with
  | two => simp [toList]
  | more first rest =>
    have := two_le_length_toList rest
    simp only [toList, List.length_cons]
    omega

@[simp] theorem ofList?_toList (operands : Operands) :
    ofList? operands.toList = some operands := by
  cases operands with
  | two => rfl
  | more first rest =>
    have size := two_le_length_toList rest
    have inner := ofList?_toList rest
    match items : rest.toList with
    | [] => simp [items] at size
    | [_] => simp [items] at size
    | _ :: _ :: _ =>
      rw [items] at inner
      simp [toList, items, ofList?, inner]

theorem toList_of_ofList? {xs : List Expr} {operands : Operands} (h : ofList? xs = some operands) :
    operands.toList = xs := by
  fun_induction ofList? xs generalizing operands with
  | case1 => simp at h
  | case2 first second =>
    obtain rfl := Option.some.inj h
    rfl
  | case3 first rest _ ih =>
    obtain ⟨tail, found, rfl⟩ := Option.map_eq_some_iff.mp h
    simp [toList, ih found]

theorem ofList?_eq_none_iff {xs : List Expr} : ofList? xs = none ↔ xs.length < 2 := by
  fun_induction ofList? xs with
  | case1 => simp
  | case2 => simp
  | case3 first rest short ih =>
    match rest, short with
    | [], _ => simp [ofList?]
    | [second], short => exact absurd rfl (short second)
    | _ :: _ :: _, _ =>
      simp only [Option.map_eq_none_iff, ih, List.length_cons]
      omega

end Operands

namespace Expr

@[simp] theorem ofChildren?_children_form (head : Expr) (operands : Operands) :
    ofChildren? (form head operands).children = some (form head operands) := by
  simp [children, ofChildren?]

/-- A form is one level deeper than its deepest child. -/
theorem depth_le_of_ofChildren? {xs : List Expr} {e : Expr} {d : Nat}
    (h : ofChildren? xs = some e) : e.depth ≤ d + 1 ↔ ∀ x ∈ xs, x.depth ≤ d := by
  cases xs with
  | nil => simp [ofChildren?] at h
  | cons head rest =>
    obtain ⟨operands, found, rfl⟩ := Option.map_eq_some_iff.mp h
    have limit : operands.depth ≤ d ↔ ∀ e ∈ operands.toList, e.depth ≤ d := operands.depth_le_iff
    rw [Operands.toList_of_ofList? found] at limit
    rw [List.forall_mem_cons, ← limit, depth]
    omega

/-- Exactly the lists of fewer than three children make no form. -/
theorem ofChildren?_eq_none_iff {xs : List Expr} : ofChildren? xs = none ↔ xs.length < 3 := by
  cases xs with
  | nil => simp [ofChildren?]
  | cons head rest =>
    simp only [ofChildren?, Option.map_eq_none_iff, Operands.ofList?_eq_none_iff, List.length_cons]
    omega

end Expr

end PolishCalc
