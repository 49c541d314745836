import PolishCalc.Proofs.Except
import PolishCalc.Proofs.Reading.Refusal

/-!
# The limit on nesting

Reading the same tokens under a larger limit gives the same result, unless the
smaller limit refuses a form (`Expr.ofTokens_eq_of_le`). A form that the larger
limit refuses is not before the one that the smaller limit refuses
(`Expr.exists_nestedTooDeeply_of_le`). Only opening parentheses use up the limit
(`Expr.not_nestedTooDeeply_of_count_le`).
-/

namespace PolishCalc

/-- The result refuses a form because of the limit on nesting. -/
def NestedTooDeeply {α : Type} (result : Except SyntaxError α) : Prop :=
  ∃ error, result = .error error ∧ error.kind = .tooDeeplyNested

/-! ## Two limits -/

namespace OpenForm

variable {maxDepth maxDepth' : Nat}

theorem step_eq_of_le (le : maxDepth ≤ maxDepth') (forms : List OpenForm) (position : Nat)
    (token : Token) :
    step maxDepth' forms position token = step maxDepth forms position token ∨
      step maxDepth forms position token = .error (.tooDeeplyNested maxDepth position) := by
  cases token with
  | atom text => exact .inl rfl
  | closeParen => exact .inl rfl
  | openParen =>
    by_cases room : forms.length < maxDepth
    · have room' : forms.length < maxDepth' := by omega
      exact .inl (by rw [step, step, if_pos room, if_pos room'])
    · exact .inr (by rw [step, if_neg room])

theorem le_position_of_nestedTooDeeply {tokens : List Token} : ∀ {forms : List OpenForm}
    {position : Nat} {error : SyntaxError}, read maxDepth forms position tokens = .error error →
    error.kind = .tooDeeplyNested → position ≤ error.position := by
  induction tokens with
  | nil =>
    intro forms position error h kind
    obtain rfl := Except.error.inj h
    cases kind
  | cons token rest ih =>
    intro forms position error h kind
    rw [read_cons] at h
    cases hs : step maxDepth forms position token with
    | error refusal =>
      rw [hs] at h
      obtain rfl := Except.error.inj h
      rcases step_error hs with ⟨-, -, rfl⟩ | ⟨-, -, rfl⟩ | ⟨-, _, _, -, -, rfl⟩
      · cases kind
      · exact Nat.le_refl _
      · cases kind
    | ok progress =>
      rw [hs] at h
      cases progress with
      | complete e => cases h
      | pending next =>
        have later : read maxDepth next (position + 1) rest = .error error := h
        have := ih later kind
        omega

/-- Both limits go the same way until the smaller one refuses a form. -/
theorem read_eq_of_le (le : maxDepth ≤ maxDepth') (tokens : List Token) :
    ∀ (forms : List OpenForm) (position : Nat),
      read maxDepth' forms position tokens = read maxDepth forms position tokens ∨
      ∃ p, read maxDepth forms position tokens = .error (.tooDeeplyNested maxDepth p) ∧
        ∀ error, read maxDepth' forms position tokens = .error error →
          error.kind = .tooDeeplyNested → p ≤ error.position := by
  induction tokens with
  | nil => exact fun forms position => .inl rfl
  | cons token rest ih =>
    intro forms position
    rcases step_eq_of_le le forms position token with same | refused
    · rw [read_cons, read_cons, same]
      cases step maxDepth forms position token with
      | error refusal => exact .inl (by rw [Except.bind, Except.bind])
      | ok progress =>
        cases progress with
        | complete e => exact .inl (by simp only [Except.bind, resume])
        | pending next => exact ih next (position + 1)
    -- Whatever the larger limit goes on to refuse comes later.
    · refine .inr ⟨position, ?_, fun error => le_position_of_nestedTooDeeply⟩
      rw [read_cons, refused, Except.bind]

end OpenForm

namespace Expr

variable {maxDepth maxDepth' : UInt64} {tokens : List Token}

theorem ofTokens_eq_of_le (le : maxDepth ≤ maxDepth')
    (h : ¬ NestedTooDeeply (ofTokens maxDepth tokens)) :
    ofTokens maxDepth' tokens = ofTokens maxDepth tokens := by
  have le := UInt64.le_iff_toNat_le.mp le
  unfold ofTokens at h ⊢
  rcases OpenForm.read_eq_of_le le tokens [] 0 with same | ⟨p, refused, -⟩
  · rw [same]
  · exact absurd ⟨_, by rw [refused]; rfl, rfl⟩ h

theorem exists_nestedTooDeeply_of_le (le : maxDepth ≤ maxDepth') {error' : SyntaxError}
    (h : ofTokens maxDepth' tokens = .error error') (kind : error'.kind = .tooDeeplyNested) :
    ∃ error, ofTokens maxDepth tokens = .error error ∧ error.kind = .tooDeeplyNested ∧
      error.position ≤ error'.position := by
  have le := UInt64.le_iff_toNat_le.mp le
  unfold ofTokens at h ⊢
  rw [Except.map_eq_error_iff] at h
  simp only [Except.map_eq_error_iff]
  rcases OpenForm.read_eq_of_le le tokens [] 0 with same | ⟨p, refused, before⟩
  · exact ⟨error', same ▸ h, kind, Nat.le_refl _⟩
  · exact ⟨_, refused, rfl, before error' h kind⟩

/-! ## Parentheses and depth -/

/-- Each open form and the refused one have an opening parenthesis of their own. -/
theorem not_nestedTooDeeply_of_count_le (h : tokens.count .openParen ≤ maxDepth.toNat) :
    ¬ NestedTooDeeply (ofTokens maxDepth tokens) := by
  rintro ⟨error, failed, kind⟩
  rw [ofTokens, Except.map_eq_error_iff] at failed
  have ends := OpenForm.ends_read maxDepth.toNat tokens
  rw [failed] at ends
  cases ends with
  | exhausted => cases kind
  | @refused forms token rest _ fits ht hs =>
    rcases OpenForm.step_error hs with ⟨-, -, rfl⟩ | ⟨rfl, full, rfl⟩ | ⟨-, _, _, -, -, rfl⟩
    · cases kind
    · have := OpenForm.count_openParen_written forms
      rw [ht, List.count_append, List.count_cons_self] at h
      omega
    · cases kind

end Expr

mutual

theorem Expr.depth_lt_length_tokens (e : Expr) : e.depth < e.tokens.length := by
  cases e with
  | leaf text => exact Nat.zero_lt_one
  | form head operands =>
    have := head.depth_lt_length_tokens
    have := operands.depth_lt_length_tokens
    simp only [Expr.depth, Expr.tokens, List.length_cons, List.length_append]
    omega

theorem Operands.depth_lt_length_tokens (operands : Operands) :
    operands.depth < operands.tokens.length := by
  cases operands with
  | two first second =>
    have := first.depth_lt_length_tokens
    have := second.depth_lt_length_tokens
    simp only [Operands.depth, Operands.tokens, List.length_append]
    omega
  | more first rest =>
    have := first.depth_lt_length_tokens
    have := rest.depth_lt_length_tokens
    simp only [Operands.depth, Operands.tokens, List.length_append]
    omega

end

theorem Expr.depth_lt_length_of_ofTokens {maxDepth : UInt64} {tokens : List Token} {e : Expr}
    (h : ofTokens maxDepth tokens = .ok e) : e.depth < tokens.length :=
  Nat.lt_of_lt_of_le e.depth_lt_length_tokens (ofTokens_sound h).2.length_le

end PolishCalc
