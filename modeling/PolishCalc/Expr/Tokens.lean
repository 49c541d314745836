import PolishCalc.Expr.Reading

/-!
# The tokens of an expression

`Expr.tokens` lists the tokens an expression is written with. Reading them
inside any open forms places the expression in the innermost form and goes on
after its last token, as long as the nesting stays within the limit
(`OpenForm.read_tokens_append`). So an expression is read back from its tokens,
whatever follows them (`Expr.ofTokens_tokens_append`).
-/

namespace PolishCalc

mutual

def Expr.tokens : Expr → List Token
  | .leaf text => [.atom text]
  | .form head operands => .openParen :: (head.tokens ++ operands.tokens ++ [.closeParen])

/-- The tokens of the operands, one after the other. -/
def Operands.tokens : Operands → List Token
  | .two first second => first.tokens ++ second.tokens
  | .more first rest => first.tokens ++ rest.tokens

end

theorem Operands.tokens_eq_flatMap (operands : Operands) :
    operands.tokens = operands.toList.flatMap Expr.tokens := by
  cases operands with
  | two first second => simp [tokens, toList]
  | more first rest => simp [tokens, toList, tokens_eq_flatMap rest]

namespace Expr

theorem tokens_of_ofChildren? {xs : List Expr} {e : Expr} (h : ofChildren? xs = some e) :
    e.tokens = .openParen :: (xs.flatMap tokens ++ [.closeParen]) := by
  cases xs with
  | nil => simp [ofChildren?] at h
  | cons head rest =>
    obtain ⟨operands, found, rfl⟩ := Option.map_eq_some_iff.mp h
    rw [tokens, Operands.tokens_eq_flatMap, Operands.toList_of_ofList? found, List.flatMap_cons]

end Expr

namespace OpenForm

/-- Reading on from some progress: there is nothing left to do once an expression is complete. -/
def resume (maxDepth position : Nat) (rest : List Token) :
    Progress → Except SyntaxError (Expr × List Token)
  | .complete e => .ok (e, rest)
  | .pending forms => read maxDepth forms position rest

theorem read_cons (maxDepth : Nat) (forms : List OpenForm) (position : Nat) (token : Token)
    (rest : List Token) :
    read maxDepth forms position (token :: rest) =
      (step maxDepth forms position token).bind (resume maxDepth (position + 1) rest) := by
  rw [read]
  cases step maxDepth forms position token with
  | error => rfl
  | ok progress => cases progress <;> rfl

mutual

theorem read_tokens_append {maxDepth : Nat} (e : Expr) (forms : List OpenForm) (position : Nat)
    (rest : List Token) (h : forms.length + e.depth ≤ maxDepth) :
    read maxDepth forms position (e.tokens ++ rest) =
      resume maxDepth (position + e.tokens.length) rest (place e forms) := by
  cases e with
  | leaf text => simp [Expr.tokens, read_cons, step, Except.bind]
  | form head operands =>
    have headFits : forms.length + 1 + head.depth ≤ maxDepth := by
      simp only [Expr.depth] at h; omega
    have operandsFit : forms.length + 1 + operands.depth ≤ maxDepth := by
      simp only [Expr.depth] at h; omega
    have opens : forms.length < maxDepth := by omega
    have closes : Expr.ofChildren? ((operands.toList.reverse ++ [head]).reverse) =
        some (.form head operands) := by
      simpa [Expr.children] using Expr.ofChildren?_children_form head operands
    simp only [Expr.tokens, List.cons_append, List.append_assoc, read_cons, step, opens,
      ↓reduceIte, Except.bind, resume]
    rw [read_tokens_append head _ _ _ (by simpa using headFits)]
    simp only [place, resume]
    rw [read_operands_append operands _ _ _ _ (by simpa using operandsFit)]
    simp only [List.nil_append, read_cons, step, closes, Except.bind,
      List.length_cons, List.length_append, List.length_nil]
    congr 1
    omega

theorem read_operands_append {maxDepth : Nat} (operands : Operands) (form : OpenForm)
    (outer : List OpenForm) (position : Nat) (rest : List Token)
    (h : outer.length + 1 + operands.depth ≤ maxDepth) :
    read maxDepth (form :: outer) position (operands.tokens ++ rest) =
      read maxDepth ({ form with children := operands.toList.reverse ++ form.children } :: outer)
        (position + operands.tokens.length) rest := by
  cases operands with
  | two first second =>
    have firstFits : outer.length + 1 + first.depth ≤ maxDepth := by
      simp only [Operands.depth] at h; omega
    have secondFits : outer.length + 1 + second.depth ≤ maxDepth := by
      simp only [Operands.depth] at h; omega
    simp only [Operands.tokens, List.append_assoc]
    rw [read_tokens_append first _ _ _ (by simpa using firstFits)]
    simp only [place, resume]
    rw [read_tokens_append second _ _ _ (by simpa using secondFits)]
    simp [place, resume, Operands.toList, Nat.add_assoc]
  | more first more =>
    have firstFits : outer.length + 1 + first.depth ≤ maxDepth := by
      simp only [Operands.depth] at h; omega
    have moreFit : outer.length + 1 + more.depth ≤ maxDepth := by
      simp only [Operands.depth] at h; omega
    simp only [Operands.tokens, List.append_assoc]
    rw [read_tokens_append first _ _ _ (by simpa using firstFits)]
    simp only [place, resume]
    rw [read_operands_append more _ _ _ _ moreFit]
    simp [Operands.toList, Nat.add_assoc]

end

end OpenForm

/-- An expression within the limit is read back from its tokens, whatever follows them. -/
theorem OpenForm.read_of_depth_le {maxDepth : Nat} (e : Expr) (rest : List Token)
    (h : e.depth ≤ maxDepth) : read maxDepth [] 0 (e.tokens ++ rest) = .ok (e, rest) := by
  rw [read_tokens_append e [] 0 rest (by simpa using h)]
  rfl

theorem Expr.ofTokens_tokens_append {maxDepth : UInt64} (e : Expr) (rest : List Token)
    (h : e.depth ≤ maxDepth.toNat) : ofTokens maxDepth (e.tokens ++ rest) = .ok e := by
  rw [ofTokens, OpenForm.read_of_depth_le e rest h]
  rfl

end PolishCalc
