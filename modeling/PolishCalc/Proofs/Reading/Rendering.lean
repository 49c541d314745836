import PolishCalc.Proofs.Reading.Grammar
import PolishCalc.Proofs.Token.Clean

/-!
# Reading what was rendered

The text of an expression whose leaves are clean is cut into the tokens of that
expression (`Expr.tokenize_render`). Expressions that were read from a text have
clean leaves (`Expr.clean_leaves_of_read`). So an expression is read back from
its own text exactly if its leaves are clean and it is within the limit
(`Expr.read_render_iff`).
-/

namespace PolishCalc

open Token (Clean tokenize)

mutual

/-- The texts of the leaves, heads included, from left to right. -/
def Expr.leaves : Expr → List String
  | .leaf text => [text]
  | .form head operands => head.leaves ++ operands.leaves

def Operands.leaves : Operands → List String
  | .two first second => first.leaves ++ second.leaves
  | .more first rest => first.leaves ++ rest.leaves

end

theorem Operands.leaves_eq_flatMap (operands : Operands) :
    operands.leaves = operands.toList.flatMap Expr.leaves := by
  cases operands with
  | two first second => simp [leaves, toList]
  | more first rest => simp [leaves, toList, leaves_eq_flatMap rest]

mutual

theorem Expr.atom_mem_tokens_iff (e : Expr) {text : String} :
    .atom text ∈ e.tokens ↔ text ∈ e.leaves := by
  cases e with
  | leaf => simp [Expr.tokens, Expr.leaves]
  | form head operands =>
    simp [Expr.tokens, Expr.leaves, head.atom_mem_tokens_iff, operands.atom_mem_tokens_iff]

theorem Operands.atom_mem_tokens_iff (operands : Operands) {text : String} :
    .atom text ∈ operands.tokens ↔ text ∈ operands.leaves := by
  cases operands with
  | two first second =>
    simp [Operands.tokens, Operands.leaves, first.atom_mem_tokens_iff, second.atom_mem_tokens_iff]
  | more first rest =>
    simp [Operands.tokens, Operands.leaves, first.atom_mem_tokens_iff, rest.atom_mem_tokens_iff]

end

/-! ## The tokens of a rendered expression -/

mutual

theorem Expr.tokenize_render (e : Expr) (clean : ∀ text ∈ e.leaves, Clean text) :
    tokenize e.render = e.tokens := by
  cases e with
  | leaf text =>
    have alone : Clean text := clean text (List.mem_singleton.mpr rfl)
    exact alone.tokenize_eq
  | form head operands =>
    obtain ⟨cleanHead, cleanOperands⟩ := List.forall_mem_append.mp clean
    rw [Expr.render, Token.tokenize_append_closeParen,
      operands.tokenize_append_render _ cleanOperands, Token.tokenize_openParen_append,
      head.tokenize_render cleanHead, Expr.tokens]
    simp

/-- Operands start with a space, so whatever comes before them keeps its tokens. -/
theorem Operands.tokenize_append_render (operands : Operands) (before : String)
    (clean : ∀ text ∈ operands.leaves, Clean text) :
    tokenize (before ++ operands.render) = tokenize before ++ operands.tokens := by
  cases operands with
  | two first second =>
    obtain ⟨cleanFirst, cleanSecond⟩ := List.forall_mem_append.mp clean
    have regroup : before ++ (Operands.two first second).render =
        before ++ " " ++ first.render ++ " " ++ second.render := by
      simp only [Operands.render, String.append_assoc]
    rw [regroup, Token.tokenize_append_space_append, Token.tokenize_append_space_append,
      first.tokenize_render cleanFirst, second.tokenize_render cleanSecond, List.append_assoc,
      Operands.tokens]
  | more first rest =>
    obtain ⟨cleanFirst, cleanRest⟩ := List.forall_mem_append.mp clean
    have regroup : before ++ (Operands.more first rest).render =
        before ++ " " ++ first.render ++ rest.render := by
      simp only [Operands.render, String.append_assoc]
    rw [regroup, rest.tokenize_append_render _ cleanRest, Token.tokenize_append_space_append,
      first.tokenize_render cleanFirst, List.append_assoc, Operands.tokens]

end

namespace Expr

variable {maxDepth : UInt64}

theorem clean_leaves_of_tokens_prefix {e : Expr} {s : String} (h : e.tokens <+: tokenize s) :
    ∀ text ∈ e.leaves, Clean text := by
  intro text ht
  exact Token.clean_of_atom_mem_tokenize (h.subset (e.atom_mem_tokens_iff.mpr ht))

theorem clean_leaves_of_read {e : Expr} {s : String} (h : read maxDepth s = .ok e) :
    ∀ text ∈ e.leaves, Clean text :=
  clean_leaves_of_tokens_prefix (ofTokens_sound h).2

theorem read_render {e : Expr} (clean : ∀ text ∈ e.leaves, Clean text)
    (fits : e.depth ≤ maxDepth.toNat) : read maxDepth e.render = .ok e := by
  rw [read, e.tokenize_render clean]
  simpa using ofTokens_tokens_append e [] fits

/-- An expression is read back from its text exactly if all its leaves are clean and it is within
the limit. -/
theorem read_render_iff (maxDepth : UInt64) (e : Expr) :
    read maxDepth e.render = .ok e ↔
      (∀ text ∈ e.leaves, Clean text) ∧ e.depth ≤ maxDepth.toNat := by
  constructor
  · intro h
    exact ⟨clean_leaves_of_read h, (ofTokens_sound h).1⟩
  · rintro ⟨clean, fits⟩
    exact read_render clean fits

-- A closing parenthesis may start the head and an opening one end the last operand.
example : read 1 "()b )( a()" = .ok (.form (.leaf ")b") (.two (.leaf ")(") (.leaf "a("))) := by
  decide

end Expr

end PolishCalc
