import PolishCalc.Calculation
import PolishCalc.Proofs.Reading.Refusal
import PolishCalc.Proofs.Token.Merge

/-!
# Decided results

Reading looks at no token after the one that decides its result. So the result
stays the same whatever tokens are added, unless the tokens ran out
(`Expr.ofTokens_append`); then every further token changes it. The same holds of
texts that are added where no token reaches across (`Expr.read_append`).
-/

namespace PolishCalc

open Text (isBlank)
open Token (MayCut tokenize)

/-- There were not enough tokens. -/
def RunsOut {α : Type} : Except SyntaxError α → Prop
  | .ok _ => False
  | .error error => error.kind = .unexpectedEnd

instance {α : Type} (result : Except SyntaxError α) : Decidable (RunsOut result) :=
  match result with
  | .ok _ => inferInstanceAs (Decidable False)
  | .error error => inferInstanceAs (Decidable (error.kind = .unexpectedEnd))

@[simp] theorem runsOut_map {α β : Type} (f : α → β) (result : Except SyntaxError α) :
    RunsOut (result.map f) ↔ RunsOut result := by
  cases result <;> rfl

/-! ## More tokens -/

namespace OpenForm

variable {maxDepth : Nat}

/-- The tokens that are added are left over behind the others. -/
theorem read_append (tokens more : List Token) : ∀ {forms : List OpenForm} {position : Nat},
    ¬ RunsOut (read maxDepth forms position tokens) →
      read maxDepth forms position (tokens ++ more) =
        (read maxDepth forms position tokens).map (Prod.map id (· ++ more)) := by
  induction tokens with
  | nil =>
    intro forms position decided
    exact absurd rfl decided
  | cons token rest ih =>
    intro forms position decided
    rw [read_cons] at decided
    rw [List.cons_append, read_cons, read_cons]
    cases hs : step maxDepth forms position token with
    | error refusal => rfl
    | ok progress =>
      rw [hs] at decided
      cases progress with
      | complete e => rfl
      | pending next => exact ih decided

end OpenForm

namespace Expr

variable {maxDepth : UInt64} {tokens : List Token}

theorem ofTokens_append (more : List Token) (decided : ¬ RunsOut (ofTokens maxDepth tokens)) :
    ofTokens maxDepth (tokens ++ more) = ofTokens maxDepth tokens := by
  rw [ofTokens, runsOut_map] at decided
  rw [ofTokens, OpenForm.read_append tokens more decided, ofTokens]
  cases OpenForm.read maxDepth.toNat [] 0 tokens <;> rfl

theorem eq_unexpectedEnd_of_runsOut (h : RunsOut (ofTokens maxDepth tokens)) :
    ofTokens maxDepth tokens = .error (.unexpectedEnd tokens.length) := by
  obtain ⟨result, ends, eq⟩ := ends_ofTokens maxDepth tokens
  rw [eq] at h ⊢
  cases ends with
  | complete => exact h.elim
  | exhausted => rfl
  | refused _ _ hs => exact absurd h (OpenForm.kind_of_step_error hs)

/-- One more token moves the place where the tokens run out, at least. -/
theorem ofTokens_concat_ne (token : Token) (h : RunsOut (ofTokens maxDepth tokens)) :
    ofTokens maxDepth (tokens ++ [token]) ≠ ofTokens maxDepth tokens := by
  intro same
  have later := eq_unexpectedEnd_of_runsOut (same ▸ h)
  rw [same, eq_unexpectedEnd_of_runsOut h] at later
  have position := congrArg SyntaxError.position (Except.error.inj later)
  simp [SyntaxError.unexpectedEnd, SyntaxError.ofKind] at position

theorem not_runsOut_iff_forall_append :
    ¬ RunsOut (ofTokens maxDepth tokens) ↔
      ∀ more, ofTokens maxDepth (tokens ++ more) = ofTokens maxDepth tokens := by
  constructor
  · exact fun decided more => ofTokens_append more decided
  · exact fun final h => ofTokens_concat_ne .openParen h (final _)

/-! ## More text -/

theorem read_append {s t : String} (cut : MayCut s t) (decided : ¬ RunsOut (read maxDepth s)) :
    read maxDepth (s ++ t) = read maxDepth s := by
  rw [read, Token.tokenize_append (Token.apart_iff_mayCut.mpr cut)]
  exact ofTokens_append (tokenize t) decided

/-- A result is decided exactly if no more tokens change it. Nor does more text after a blank, and
so the value stays the same. -/
theorem decided_append (maxDepth : UInt64) :
    (∀ tokens, ¬ RunsOut (ofTokens maxDepth tokens) ↔
      ∀ more, ofTokens maxDepth (tokens ++ more) = ofTokens maxDepth tokens) ∧
    ∀ (s t : String) (c : Char), isBlank c = true → ¬ RunsOut (read maxDepth s) →
      let longer := s ++ String.singleton c ++ t
      read maxDepth longer = read maxDepth s ∧
      (readOrPlaceholder maxDepth longer).evaluate = (readOrPlaceholder maxDepth s).evaluate ∧
      calculateFor maxDepth longer = calculateFor maxDepth s := by
  refine ⟨fun tokens => not_runsOut_iff_forall_append, ?_⟩
  intro s t c blank decided longer
  have cut : MayCut s (String.singleton c ++ t) :=
    .inr (.inr (.inr ⟨c, by simp, .inl blank⟩))
  have same : read maxDepth longer = read maxDepth s := by
    rw [← read_append cut decided, ← String.append_assoc]
  have tree : readOrPlaceholder maxDepth longer = readOrPlaceholder maxDepth s := by
    rw [readOrPlaceholder, same, readOrPlaceholder]
  exact ⟨same, by rw [tree], by rw [calculateFor, tree, calculateFor]⟩

/-- What comes after a form that is too short or too deeply nested does not mend it. -/
theorem decided_append_refused :
    let tokens : List Token := [.openParen, .atom "+", .openParen]
    ¬ RunsOut (ofTokens 1 tokens) ∧
      ofTokens 1 (tokens ++ [.closeParen, .atom "1"]) = .error (.tooDeeplyNested 1 2) ∧
      isBlank '\n' = true ∧ ¬ RunsOut (read 1 "(+ 1)") ∧
      read 1 ("(+ 1)" ++ String.singleton '\n' ++ "2)") = .error (.invalidExpression 0) ∧
      calculateFor 1 ("(+ 1)" ++ String.singleton '\n' ++ "2)") = calculateFor 1 "(+ 1)" := by
  intro tokens
  obtain ⟨ofTokens_final, read_final⟩ := decided_append 1
  have decided : ¬ RunsOut (ofTokens 1 tokens) := by decide
  have blank : isBlank '\n' = true := by decide
  have short : ¬ RunsOut (read 1 "(+ 1)") := by decide
  obtain ⟨same, -, value⟩ := read_final "(+ 1)" "2)" '\n' blank short
  exact ⟨decided, ((ofTokens_final tokens).mp decided _).trans (by decide), blank, short,
    same.trans (by decide), value⟩

end Expr

end PolishCalc
