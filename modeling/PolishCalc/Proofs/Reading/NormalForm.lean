import PolishCalc.Proofs.Reading.Rendering

/-!
# Normal forms of texts

The text of an expression that was read is cut into exactly the tokens that
reading used (`Expr.exists_rest_of_read`). So it is a normal form of all texts
that are read as this expression: reading it gives the expression again and
leaves no token behind (`Expr.read_normal_form`). Expressions with clean leaves
have different texts (`Expr.eq_of_render_eq`).
-/

namespace PolishCalc

open Token (Clean tokenize)

/-- Reading uses the tokens of the expression it finds and leaves the others. -/
theorem OpenForm.read_eq_ok_iff {maxDepth : Nat} {tokens rest : List Token} {e : Expr} :
    read maxDepth [] 0 tokens = .ok (e, rest) ↔
      e.depth ≤ maxDepth ∧ tokens = e.tokens ++ rest := by
  constructor
  · intro h
    have ends := ends_read maxDepth tokens
    rw [h] at ends
    cases ends with
    | complete fits used => exact ⟨fits, used⟩
  · rintro ⟨fits, rfl⟩
    exact read_of_depth_le e rest fits

namespace Expr

variable {maxDepth : UInt64} {text : String} {e e' : Expr}

theorem exists_rest_of_read (h : read maxDepth text = .ok e) :
    ∃ rest, OpenForm.read maxDepth.toNat [] 0 (tokenize text) = .ok (e, rest) ∧
      tokenize text = tokenize e.render ++ rest := by
  obtain ⟨fits, rest, used⟩ := ofTokens_sound h
  refine ⟨rest, OpenForm.read_eq_ok_iff.mpr ⟨fits, used.symm⟩, ?_⟩
  rw [e.tokenize_render (clean_leaves_of_read h), used]

theorem read_render_of_read (h : read maxDepth text = .ok e) :
    OpenForm.read maxDepth.toNat [] 0 (tokenize e.render) = .ok (e, []) := by
  rw [e.tokenize_render (clean_leaves_of_read h), OpenForm.read_eq_ok_iff]
  exact ⟨(ofTokens_sound h).1, (List.append_nil _).symm⟩

theorem eq_of_render_eq (clean : ∀ leaf ∈ e.leaves, Clean leaf)
    (clean' : ∀ leaf ∈ e'.leaves, Clean leaf) (same : e.render = e'.render) : e = e' := by
  have tokens : e.tokens = e'.tokens := by
    rw [← e.tokenize_render clean, same, e'.tokenize_render clean']
  exact eq_of_tokens_prefix (List.prefix_refl _) (tokens ▸ List.prefix_refl _)

-- A leaf that is not clean may look like a form.
example : (leaf "(+ 1 2)").render =
    (form (leaf "+") (.two (leaf "1") (leaf "2"))).render := by
  decide

/-- Rendering what was read from a text loses the blanks and the tokens that were left, and no more.
The rendered text is read back without a rest, and it tells whether two texts were read alike. -/
theorem read_normal_form (maxDepth : UInt64) :
    (∀ {text : String} {e : Expr}, read maxDepth text = .ok e →
      (∃ rest, OpenForm.read maxDepth.toNat [] 0 (tokenize text) = .ok (e, rest) ∧
        tokenize text = tokenize e.render ++ rest) ∧
      read maxDepth e.render = .ok e ∧
      OpenForm.read maxDepth.toNat [] 0 (tokenize e.render) = .ok (e, [])) ∧
    ∀ {text text' : String} {e e' : Expr}, read maxDepth text = .ok e →
      read maxDepth text' = .ok e' → (e = e' ↔ e.render = e'.render) := by
  refine ⟨fun h => ⟨exists_rest_of_read h, ?_, read_render_of_read h⟩, fun h h' => ⟨?_, ?_⟩⟩
  · exact read_render (clean_leaves_of_read h) (ofTokens_sound h).1
  · exact congrArg render
  · exact eq_of_render_eq (clean_leaves_of_read h) (clean_leaves_of_read h')

/-- Without the space before it, an opening parenthesis belongs to the atom. -/
theorem read_normal_form_glued :
    let text := "( +\t1 (* a()b )) )"
    let text' := "( +\t1(* a()b )) )"
    let e : Expr := .form (.leaf "+")
      (.two (.leaf "1") (.form (.leaf "*") (.two (.leaf "a(") (.leaf ")b"))))
    let e' : Expr := .form (.leaf "+")
      (.more (.leaf "1(") (.more (.leaf "*") (.two (.leaf "a(") (.leaf ")b"))))
    e.render = "(+ 1 (* a( )b))" ∧ read 2 text = .ok e ∧ read 2 text' = .ok e' ∧
      (∃ rest, OpenForm.read 2 [] 0 (tokenize text) = .ok (e, rest) ∧
        tokenize text = tokenize e.render ++ rest) ∧
      read 2 e.render = .ok e ∧ e.render ≠ e'.render := by
  intro text text' e e'
  have accepted : read 2 text = .ok e := by decide
  have accepted' : read 2 text' = .ok e' := by decide
  obtain ⟨used, again, -⟩ := (read_normal_form 2).1 accepted
  have different : e ≠ e' := by decide
  have alike := (read_normal_form 2).2 accepted accepted'
  exact ⟨by decide, accepted, accepted', used, again, fun same => different (alike.mpr same)⟩

end Expr

end PolishCalc
