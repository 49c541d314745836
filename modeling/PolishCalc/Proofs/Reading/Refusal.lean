import PolishCalc.Proofs.Reading.Grammar

/-!
# Where reading fails

Reading runs out of tokens exactly when the tokens are unfinished: some
expression within the limit starts with them and goes on. Otherwise, if it fails
at all, one token is to blame, the only one at which tokens that were unfinished
turn into tokens that no expression starts with. That token alone decides the
error and its position (`ofTokens_error_cases`).
-/

namespace PolishCalc

/-- Some expression within the limit starts with the tokens and goes on after them. -/
def Unfinished (maxDepth : Nat) (tokens : List Token) : Prop :=
  ∃ e : Expr, e.depth ≤ maxDepth ∧ tokens <+: e.tokens ∧ tokens ≠ e.tokens

/-- The tokens before token `i` are unfinished; with it, they neither are nor make an expression. -/
structure RefusedAt (maxDepth : Nat) (tokens : List Token) (i : Nat) : Prop where
  lt : i < tokens.length
  before : Unfinished maxDepth (tokens.take i)
  notUnfinished : ¬ Unfinished maxDepth (tokens.take (i + 1))
  notComplete : ∀ e : Expr, e.depth ≤ maxDepth → tokens.take (i + 1) ≠ e.tokens

/-- The error for a refused token `i`. -/
inductive ErrorAt (maxDepth : Nat) (tokens : List Token) (i : Nat) : SyntaxError → Prop where
  | closing : i = 0 → tokens[i]? = some .closeParen →
      ErrorAt maxDepth tokens i {
        kind := .unexpectedClosingParen
        message := "unexpected closing parenthesis"
        position := 0
        found := some ")" }
  /-- As many forms are unclosed as may be nested. -/
  | nesting : tokens[i]? = some .openParen →
      (tokens.take i).count .openParen = (tokens.take i).count .closeParen + maxDepth →
      ErrorAt maxDepth tokens i {
        kind := .tooDeeplyNested
        message := "expression too deeply nested (max depth: " ++ toString maxDepth ++ ")"
        position := i
        found := none }
  /-- The form that is to be closed was opened at `p` and holds nothing but `children`. -/
  | short {p : Nat} {children : List Expr} : 0 < i → tokens[i]? = some .closeParen →
      tokens.take i = tokens.take p ++ .openParen :: children.flatMap Expr.tokens →
      children.length < 3 →
      ErrorAt maxDepth tokens i {
        kind := .invalidExpression
        message := "invalid expression"
        position := p
        found := none }

variable {maxDepth : Nat}

/-! ## Unfinished tokens -/

theorem Unfinished.of_prefix {tokens more : List Token} (h : Unfinished maxDepth more)
    (hp : tokens <+: more) : Unfinished maxDepth tokens := by
  obtain ⟨e, hd, he, hne⟩ := h
  refine ⟨e, hd, hp.trans he, ?_⟩
  rintro rfl
  exact hne (he.eq_of_length_le hp.length_le)

namespace OpenForm

/-- Leaves after what is there already close the innermost form, and so on outwards. -/
theorem Fits.exists_completion {forms : List OpenForm} (h : Fits maxDepth forms) :
    ∀ {x : Expr}, forms.length + x.depth ≤ maxDepth →
      ∃ e : Expr, e.depth ≤ maxDepth ∧ written forms ++ x.tokens <+: e.tokens := by
  induction h with
  | nil =>
    intro x room
    exact ⟨x, by simpa using room, List.prefix_rfl⟩
  | @cons form outer _ hlt _ hkids ih =>
    intro x room
    rw [List.length_cons] at room
    have long : Expr.ofChildren? (form.children.reverse ++ [x, .leaf "", .leaf ""]) ≠ none := by
      rw [ne_eq, Expr.ofChildren?_eq_none_iff, List.length_append]
      simp
    obtain ⟨y, hy⟩ := Option.ne_none_iff_exists'.mp long
    have depth : y.depth ≤ maxDepth - outer.length - 1 + 1 := by
      refine (Expr.depth_le_of_ofChildren? hy).mpr fun z hz => ?_
      simp only [List.mem_append, List.mem_reverse, List.mem_cons, List.not_mem_nil, or_false] at hz
      rcases hz with hz | rfl | rfl | rfl
      · have := hkids z hz
        omega
      · omega
      · exact Nat.zero_le _
      · exact Nat.zero_le _
    obtain ⟨e, hd, he⟩ := ih (x := y) (by omega)
    refine ⟨e, hd, List.IsPrefix.trans ?_ he⟩
    rw [Expr.tokens_of_ofChildren? hy]
    simp [written]

theorem Fits.unfinished_written {forms : List OpenForm} (h : Fits maxDepth forms) :
    Unfinished maxDepth (written forms) := by
  obtain ⟨e, hd, he⟩ := h.exists_completion (x := .leaf "") h.length_le
  refine ⟨e, hd, (List.prefix_append _ _).trans he, fun eq => ?_⟩
  have := he.length_le
  simp only [← eq, Expr.tokens, List.length_append, List.length_singleton] at this
  omega

/-! ## The token to blame -/

variable {forms : List OpenForm} {token : Token} {error : SyntaxError}

/-- Whatever starts with the tokens up to a refused one is refused there. -/
theorem Fits.not_prefix_of_step_error (h : Fits maxDepth forms)
    (hs : step maxDepth forms (written forms).length token = .error error) {e : Expr}
    (hd : e.depth ≤ maxDepth) : ¬ written forms ++ [token] <+: e.tokens := by
  rintro ⟨more, eq⟩
  have accepted := read_of_depth_le e [] hd
  rw [List.append_nil, ← eq, List.append_assoc, List.singleton_append, read_written h, read_cons,
    hs] at accepted
  cases accepted

theorem Fits.refusedAt (h : Fits maxDepth forms)
    (hs : step maxDepth forms (written forms).length token = .error error) (rest : List Token) :
    RefusedAt maxDepth (written forms ++ token :: rest) (written forms).length := by
  have upTo : (written forms ++ token :: rest).take ((written forms).length + 1) =
      written forms ++ [token] := by simp [List.take_append, List.take_of_length_le]
  refine ⟨by simp, ?_, ?_, ?_⟩
  · rw [List.take_left]
    exact h.unfinished_written
  · rw [upTo]
    rintro ⟨e, hd, he, -⟩
    exact h.not_prefix_of_step_error hs hd he
  · rw [upTo]
    intro e hd eq
    exact h.not_prefix_of_step_error hs hd (eq ▸ List.prefix_rfl)

end OpenForm

theorem RefusedAt.le {tokens : List Token} {i j : Nat} (hi : RefusedAt maxDepth tokens i)
    (hj : RefusedAt maxDepth tokens j) : i ≤ j := by
  rcases Nat.lt_or_ge j i with hlt | hle
  · exact absurd (hi.before.of_prefix (List.take_prefix_take_left hlt)) hj.notUnfinished
  · exact hle

/-! ## Balance -/

mutual

theorem Expr.count_openParen_tokens (e : Expr) :
    e.tokens.count .openParen = e.tokens.count .closeParen := by
  cases e with
  | leaf text => simp [Expr.tokens]
  | form head operands =>
    simp [Expr.tokens, head.count_openParen_tokens, operands.count_openParen_tokens, Nat.add_assoc]

theorem Operands.count_openParen_tokens (operands : Operands) :
    operands.tokens.count .openParen = operands.tokens.count .closeParen := by
  cases operands with
  | two first second =>
    simp [Operands.tokens, first.count_openParen_tokens, second.count_openParen_tokens]
  | more first rest =>
    simp [Operands.tokens, first.count_openParen_tokens, rest.count_openParen_tokens]

end

/-- As many parentheses are unclosed as there are open forms. -/
theorem OpenForm.count_openParen_written (forms : List OpenForm) :
    (written forms).count .openParen = (written forms).count .closeParen + forms.length := by
  induction forms with
  | nil => rfl
  | cons form outer ih =>
    simp [written, ih, List.count_flatMap, Function.comp_def, Expr.count_openParen_tokens]
    omega

/-! ## The errors -/

namespace OpenForm

theorem Fits.errorAt {forms : List OpenForm} {token : Token} {error : SyntaxError}
    (h : Fits maxDepth forms)
    (hs : step maxDepth forms (written forms).length token = .error error) (rest : List Token) :
    ErrorAt maxDepth (written forms ++ token :: rest) (written forms).length error := by
  rcases step_error hs with ⟨rfl, rfl, rfl⟩ | ⟨rfl, full, rfl⟩ | ⟨rfl, form, outer, rfl, few, rfl⟩
  · exact .closing rfl rfl
  · refine .nesting (by simp) ?_
    have := h.length_le
    rw [List.take_left, count_openParen_written]
    omega
  · cases h with
    | cons _ _ hpos _ =>
      have nonempty : 0 < (written (form :: outer)).length :=
        List.length_pos_iff.mpr (written_ne_nil (List.cons_ne_nil _ _))
      have short : form.children.reverse.length < 3 := by simpa using few
      refine .short nonempty (by simp) ?_ short
      rw [List.take_left, hpos, written, List.append_assoc, List.take_left]

theorem kind_of_step_error {forms : List OpenForm} {token : Token} {position : Nat}
    {error : SyntaxError} (hs : step maxDepth forms position token = .error error) :
    error.kind ≠ .unexpectedEnd := by
  rcases step_error hs with ⟨-, -, rfl⟩ | ⟨-, -, rfl⟩ | ⟨-, _, _, -, -, rfl⟩ <;> nofun

theorem exists_written_of_unfinished {tokens : List Token} (h : Unfinished maxDepth tokens) :
    ∃ forms, Fits maxDepth forms ∧ tokens = written forms := by
  obtain ⟨e, hd, he, hne⟩ := h
  have ends := ends_read maxDepth tokens
  generalize read maxDepth [] 0 tokens = result at ends
  cases ends with
  | @complete a rest _ ht =>
    have ha : a.tokens <+: tokens := ⟨rest, ht.symm⟩
    obtain rfl := Expr.eq_of_tokens_prefix (ha.trans he) List.prefix_rfl
    exact absurd (he.eq_of_length_le ha.length_le) hne
  | exhausted fits ht => exact ⟨_, fits, ht⟩
  | @refused forms token rest _ fits ht hs =>
    refine absurd (List.IsPrefix.trans ⟨rest, ?_⟩ he) (fits.not_prefix_of_step_error hs hd)
    rw [ht, List.append_assoc, List.singleton_append]

theorem read_of_unfinished {tokens : List Token} (h : Unfinished maxDepth tokens) :
    read maxDepth [] 0 tokens = .error (.unexpectedEnd tokens.length) := by
  obtain ⟨forms, fits, rfl⟩ := exists_written_of_unfinished h
  simpa [read] using read_written fits []

end OpenForm

/-- Reading runs out of tokens exactly on unfinished ones, and then says so behind the last token.
Any other error is that of the one token that is refused. -/
theorem Expr.ofTokens_error_cases (maxDepth : UInt64) (tokens : List Token) :
    ((∃ error, ofTokens maxDepth tokens = .error error ∧ error.kind = .unexpectedEnd) ↔
      Unfinished maxDepth.toNat tokens) ∧
    ∀ error, ofTokens maxDepth tokens = .error error →
      error = {
        kind := .unexpectedEnd
        message := "unexpected end of expression"
        position := tokens.length
        found := none } ∨
      error.kind ≠ .unexpectedEnd ∧ ∃ i, RefusedAt maxDepth.toNat tokens i ∧
        (∀ j, RefusedAt maxDepth.toNat tokens j → j = i) ∧
        ErrorAt maxDepth.toNat tokens i error := by
  obtain ⟨result, ends, eq⟩ := ends_ofTokens maxDepth tokens
  rw [eq]
  refine ⟨⟨?_, fun h => ?_⟩, fun error h => ?_⟩
  · rintro ⟨error, h, kind⟩
    cases ends with
    | complete => cases h
    | exhausted fits ht => exact ht ▸ fits.unfinished_written
    | refused _ _ hs =>
      obtain rfl := Except.error.inj h
      exact absurd kind (OpenForm.kind_of_step_error hs)
  · refine ⟨.unexpectedEnd tokens.length, ?_, rfl⟩
    rw [← eq, ofTokens, OpenForm.read_of_unfinished h]
    rfl
  · cases ends with
    | complete => cases h
    | exhausted => exact .inl (Except.error.inj h).symm
    | @refused forms token rest _ fits ht hs =>
      obtain rfl := Except.error.inj h
      subst ht
      have here := fits.refusedAt hs rest
      exact .inr ⟨OpenForm.kind_of_step_error hs, _, here,
        fun j hj => Nat.le_antisymm (hj.le here) (here.le hj), fits.errorAt hs rest⟩

/-- The nested form is to blame, not the one around it, which is too short as well. -/
theorem Expr.ofTokens_nested_short_form :
    let tokens : List Token :=
      [.openParen, .openParen, .atom "+", .atom "1", .closeParen, .closeParen]
    let error : SyntaxError := {
      kind := .invalidExpression, message := "invalid expression", position := 1, found := none }
    ofTokens 32 tokens = .error error ∧ ∃ i, RefusedAt 32 tokens i ∧ ErrorAt 32 tokens i error := by
  intro tokens error
  have failed : ofTokens 32 tokens = .error error := by decide
  refine ⟨failed, ?_⟩
  rcases (ofTokens_error_cases 32 tokens).2 _ failed with h | ⟨-, i, refused, -, blamed⟩
  · have kinds : SyntaxError.Kind.invalidExpression = .unexpectedEnd := congrArg SyntaxError.kind h
    cases kinds
  · exact ⟨i, refused, blamed⟩

end PolishCalc
