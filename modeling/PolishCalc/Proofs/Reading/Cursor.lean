import PolishCalc.Proofs.Reading.Descent
import PolishCalc.Proofs.Reading.Nesting

/-!
# The cursor of the descending reader

From any token on, the descending reader comes to an end. What it has read are
the tokens that the cursor has moved over, and after a failure the cursor is
still not behind the end (`ExprSpec`, `FormSpec`, `ChildrenSpec`). The open forms
of `OpenForm.read` are the calls that have not ended, and so both readers come to
the same (`exists_readExpr_eq_ofTokens`).
-/

namespace PolishCalc.Descent

/-! ## What calls do -/

/-- The cursor moves from `i` to `q` over the tokens `read`. -/
structure Consumes (tokens : List Token) (i : Nat) (read : List Token) (q : Nat) : Prop where
  drop_eq : tokens.drop i = read ++ tokens.drop q
  cursor : q = i + read.length

/-- Whatever is accepted is right; a failure leaves the cursor between `p` and the end. -/
inductive Moves {α : Type} (tokens : List Token) (p : Nat) (accept : α → Nat → Prop) :
    Outcome α → Prop where
  | ok {a : α} {q : Nat} : accept a q → Moves tokens p accept (.ok a, q)
  | error {error : SyntaxError} {q : Nat} : p ≤ q → q ≤ tokens.length →
      error.position ≤ tokens.length → Moves tokens p accept (.error error, q)

/-- How reading goes on inside open forms when a call has ended. -/
def goOn (maxDepth : Nat) (tokens : List Token) (forms : List OpenForm) (outcome : Outcome Expr) :
    Except SyntaxError (Expr × List Token) :=
  outcome.1.bind fun e =>
    OpenForm.resume maxDepth outcome.2 (tokens.drop outcome.2) (OpenForm.place e forms)

/-- What is known of a call for an expression at `p`, inside `depth` forms. -/
structure ExprSpec (tokens : List Token) (maxDepth depth p : Nat) (outcome : Outcome Expr) :
    Prop where
  returns {fuel rest : Fuel} : fuel.spend? = some rest → rest.Suffices maxDepth (depth + 1) →
    readExpr tokens maxDepth fuel depth p = some outcome
  moves : Moves tokens p (fun e q => Consumes tokens p e.tokens q) outcome
  /-- The same comes of reading with open forms, unless a closing parenthesis would close one. -/
  agrees (forms : List OpenForm) : forms.length = depth →
    (forms ≠ [] → tokens[p]? ≠ some .closeParen) →
    OpenForm.read maxDepth forms p (tokens.drop p) = goOn maxDepth tokens forms outcome

/-- What is known of a call for the form that is opened at `i`. -/
structure FormSpec (tokens : List Token) (maxDepth depth i : Nat) (outcome : Outcome Expr) :
    Prop where
  returns {fuel : Fuel} : fuel.Suffices maxDepth depth →
    readForm tokens maxDepth fuel depth (i + 1) = some outcome
  moves : Moves tokens (i + 1) (fun e q => Consumes tokens i e.tokens q) outcome
  agrees (forms : List OpenForm) : forms.length + 1 = depth →
    OpenForm.read maxDepth forms i (tokens.drop i) = goOn maxDepth tokens forms outcome

/-- What is known of the loop over the children of a form, with some of them read already. -/
structure ChildrenSpec (tokens : List Token) (maxDepth depth p : Nat) (children : List Expr)
    (outcome : Outcome (List Expr)) : Prop where
  returns {fuel : Fuel} : fuel.Suffices maxDepth depth →
    readChildren tokens maxDepth fuel depth p children = some outcome
  moves : Moves tokens p (fun all q => tokens[q]? = some .closeParen ∧
    ∃ more, all = children ++ more ∧ Consumes tokens p (more.flatMap Expr.tokens) q) outcome
  agrees (opening : Nat) (outer : List OpenForm) : outer.length + 1 = depth →
    OpenForm.read maxDepth (⟨opening, children.reverse⟩ :: outer) p (tokens.drop p) =
      outcome.1.bind fun all => OpenForm.read maxDepth (⟨opening, all.reverse⟩ :: outer)
        outcome.2 (tokens.drop outcome.2)

variable {tokens : List Token} {maxDepth depth i p q : Nat}

theorem drop_of_getElem? {token : Token} (h : tokens[p]? = some token) :
    tokens.drop p = token :: tokens.drop (p + 1) := by
  obtain ⟨below, rfl⟩ := List.getElem?_eq_some_iff.mp h
  exact List.drop_eq_getElem_cons below

namespace Consumes

variable {xs ys : List Token}

theorem nil : Consumes tokens i [] i :=
  ⟨rfl, rfl⟩

theorem single {token : Token} (h : tokens[p]? = some token) : Consumes tokens p [token] (p + 1) :=
  ⟨drop_of_getElem? h, rfl⟩

theorem append (first : Consumes tokens i xs p) (second : Consumes tokens p ys q) :
    Consumes tokens i (xs ++ ys) q := by
  refine ⟨?_, ?_⟩
  · rw [first.drop_eq, second.drop_eq, List.append_assoc]
  · rw [second.cursor, first.cursor, List.length_append, Nat.add_assoc]

theorem isPrefix (h : Consumes tokens i xs q) : xs <+: tokens.drop i :=
  ⟨_, h.drop_eq.symm⟩

theorem le (h : Consumes tokens i xs q) (start : i ≤ tokens.length) : q ≤ tokens.length := by
  have size := congrArg List.length h.drop_eq
  have cursor := h.cursor
  rw [List.length_append, List.length_drop, List.length_drop] at size
  omega

/-- Every expression has tokens. -/
theorem lt {e : Expr} (h : Consumes tokens p e.tokens q) : p < q := by
  have cursor := h.cursor
  have positive := e.depth_lt_length_tokens
  omega

end Consumes

theorem Moves.of_le {α : Type} {accept accept' : α → Nat → Prop} {outcome : Outcome α}
    (h : Moves tokens q accept outcome) (le : p ≤ q)
    (weaken : ∀ {a r}, accept a r → accept' a r) : Moves tokens p accept' outcome := by
  cases h with
  | ok accepted => exact .ok (weaken accepted)
  | error after inside position => exact .error (Nat.le_trans le after) inside position

/-! ## Each call does that if the calls it makes do -/

theorem exists_exprSpec_of (h : p ≤ tokens.length)
    (form : tokens[p]? = some .openParen →
      ∃ outcome, FormSpec tokens maxDepth (depth + 1) p outcome) :
    ∃ outcome, ExprSpec tokens maxDepth depth p outcome := by
  match token : tokens[p]? with
  | none =>
    refine ⟨_, fun _ _ => readExpr_of_none token, .error (Nat.le_refl p) h h, fun _ _ _ => ?_⟩
    rw [List.drop_eq_nil_of_le (List.getElem?_eq_none_iff.mp token)]
    rfl
  | some .openParen =>
    obtain ⟨outcome, spec⟩ := form token
    refine ⟨outcome, fun spent enough => ?_, ?_, fun forms depths _ => ?_⟩
    · rw [readExpr_of_openParen token, spent]
      exact spec.returns enough
    · exact spec.moves.of_le (Nat.le_succ p) id
    · exact spec.agrees forms (by omega)
  | some .closeParen =>
    have below := lt_of_getElem? token
    refine ⟨_, fun _ _ => readExpr_of_closeParen token, .error (Nat.le_succ p) below h,
      fun forms _ other => ?_⟩
    obtain rfl : forms = [] := by
      by_contra some
      exact other some token
    rw [drop_of_getElem? token]
    rfl
  | some (.atom text) =>
    refine ⟨_, fun _ _ => readExpr_of_atom token, .ok (.single token), fun _ _ _ => ?_⟩
    rw [drop_of_getElem? token, OpenForm.read_cons]
    rfl

theorem ChildrenSpec.moves_close {outcome : Outcome (List Expr)}
    (spec : ChildrenSpec tokens maxDepth depth (i + 1) [] outcome)
    (h : tokens[i]? = some .openParen) :
    Moves tokens (i + 1) (fun e q => Consumes tokens i e.tokens q) (close i outcome) := by
  cases spec.moves with
  | error after inside position => exact .error after inside position
  | @ok all q accepted =>
    obtain ⟨closing, more, rfl, consumed⟩ := accepted
    have cursor := consumed.cursor
    have below := lt_of_getElem? closing
    unfold close
    dsimp only
    split
    next => exact .error (by omega) (Nat.le_of_lt below) (Nat.le_of_lt (lt_of_getElem? h))
    next e made =>
      refine .ok ?_
      rw [Expr.tokens_of_ofChildren? made]
      exact (Consumes.single h).append (consumed.append (.single closing))

theorem read_close (closing : tokens[q]? = some .closeParen) (opening : Nat) (all : List Expr)
    (outer : List OpenForm) :
    OpenForm.read maxDepth (⟨opening, all.reverse⟩ :: outer) q (tokens.drop q) =
      goOn maxDepth tokens outer (close opening (.ok all, q)) := by
  rw [drop_of_getElem? closing, OpenForm.read_cons, OpenForm.step]
  dsimp only
  rw [List.reverse_reverse, close]
  cases Expr.ofChildren? all <;> rfl

theorem exists_formSpec_of (h : tokens[i]? = some .openParen)
    (children : depth ≤ maxDepth →
      ∃ outcome, ChildrenSpec tokens maxDepth depth (i + 1) [] outcome) :
    ∃ outcome, FormSpec tokens maxDepth depth i outcome := by
  have below := lt_of_getElem? h
  rcases Nat.lt_or_ge maxDepth depth with deep | fits
  · refine ⟨_, fun _ => readForm_of_lt deep, .error (Nat.le_refl _) below (Nat.le_of_lt below),
      fun forms depths => ?_⟩
    have full : ¬forms.length < maxDepth := by omega
    rw [drop_of_getElem? h, OpenForm.read_cons, OpenForm.step, if_neg full]
    rfl
  · obtain ⟨outcome, spec⟩ := children fits
    refine ⟨close i outcome, fun enough => ?_, spec.moves_close h, fun forms depths => ?_⟩
    · rw [readForm_of_le fits, spec.returns enough]
      rfl
    · have room : forms.length < maxDepth := by omega
      rw [drop_of_getElem? h, OpenForm.read_cons, OpenForm.step, if_pos room]
      refine (spec.agrees i forms depths).trans ?_
      cases spec.moves with
      | error => rfl
      | ok accepted => exact read_close accepted.1 i _ forms

section Round

variable {children : List Expr} {token : Token} (fits : depth ≤ maxDepth)
  (found : tokens[p]? = some token) (ne : token ≠ .closeParen)

include fits found ne

/-- A round that fails. -/
theorem ExprSpec.children_error {error : SyntaxError}
    (spec : ExprSpec tokens maxDepth depth p (.error error, q)) :
    ChildrenSpec tokens maxDepth depth p children (.error error, q) := by
  refine ⟨fun enough => ?_, ?_, fun opening outer depths => ?_⟩
  · obtain ⟨rest, spent, left⟩ := enough.spend fits
    exact readChildren_of_error found ne (spec.returns spent left)
  · cases spec.moves with
    | error after inside position => exact .error after inside position
  · exact spec.agrees (⟨opening, children.reverse⟩ :: outer) depths
      fun _ => by simpa [found] using ne

/-- A round that adds a child, and the rounds after it. -/
theorem ExprSpec.children_ok {e : Expr} {outcome : Outcome (List Expr)}
    (spec : ExprSpec tokens maxDepth depth p (.ok e, q)) (consumed : Consumes tokens p e.tokens q)
    (later : ChildrenSpec tokens maxDepth depth q (children ++ [e]) outcome) :
    ChildrenSpec tokens maxDepth depth p children outcome := by
  refine ⟨fun enough => ?_, ?_, fun opening outer depths => ?_⟩
  · obtain ⟨rest, spent, left⟩ := enough.spend fits
    rw [readChildren_of_ok found ne (spec.returns spent left) consumed.lt]
    exact later.returns enough
  · refine later.moves.of_le (Nat.le_of_lt consumed.lt) ?_
    rintro all r ⟨closing, more, rfl, after⟩
    exact ⟨closing, e :: more, by simp, consumed.append after⟩
  · have placed := spec.agrees (⟨opening, children.reverse⟩ :: outer) depths
      fun _ => by simpa [found] using ne
    have continued := later.agrees opening outer depths
    rw [List.reverse_concat] at continued
    exact placed.trans continued

end Round

theorem exists_childrenSpec_of {children : List Expr} (fits : depth ≤ maxDepth)
    (h : p ≤ tokens.length) (expr : ∃ outcome, ExprSpec tokens maxDepth depth p outcome)
    (later : ∀ {q : Nat} (children : List Expr), p < q → q ≤ tokens.length →
      ∃ outcome, ChildrenSpec tokens maxDepth depth q children outcome) :
    ∃ outcome, ChildrenSpec tokens maxDepth depth p children outcome := by
  match found : tokens[p]? with
  | none =>
    refine ⟨_, fun _ => readChildren_of_none found, .error (Nat.le_refl p) h h, fun _ _ _ => ?_⟩
    rw [List.drop_eq_nil_of_le (List.getElem?_eq_none_iff.mp found)]
    rfl
  | some token =>
    by_cases closing : token = .closeParen
    · subst closing
      exact ⟨_, fun _ => readChildren_of_closeParen found, .ok ⟨found, [], by simp, .nil⟩,
        fun _ _ _ => rfl⟩
    · obtain ⟨outcome, spec⟩ := expr
      cases spec.moves with
      | error => exact ⟨_, spec.children_error fits found closing⟩
      | @ok e q consumed =>
        obtain ⟨outcome, after⟩ := later (children ++ [e]) consumed.lt (consumed.le h)
        exact ⟨outcome, spec.children_ok fits found closing consumed after⟩

/-- The calls for a child that opens a form and for the children after a child are further on. -/
theorem exists_childrenSpec {depth p : Nat} (fits : depth ≤ maxDepth) (h : p ≤ tokens.length)
    (children : List Expr) : ∃ outcome, ChildrenSpec tokens maxDepth depth p children outcome := by
  have inner (deeper : depth + 1 ≤ maxDepth) (below : p < tokens.length) :
      ∃ outcome, ChildrenSpec tokens maxDepth (depth + 1) (p + 1) [] outcome :=
    exists_childrenSpec deeper below []
  have later {q : Nat} (children : List Expr) (less : p < q) (le : q ≤ tokens.length) :
      ∃ outcome, ChildrenSpec tokens maxDepth depth q children outcome :=
    exists_childrenSpec fits le children
  refine exists_childrenSpec_of fits h (exists_exprSpec_of h fun opening => ?_) later
  exact exists_formSpec_of opening fun deeper => inner deeper (lt_of_getElem? opening)
termination_by tokens.length - p

theorem exists_formSpec (maxDepth depth : Nat) (h : tokens[i]? = some .openParen) :
    ∃ outcome, FormSpec tokens maxDepth depth i outcome :=
  exists_formSpec_of h fun fits => exists_childrenSpec fits (lt_of_getElem? h) []

theorem exists_exprSpec (maxDepth depth : Nat) (h : p ≤ tokens.length) :
    ∃ outcome, ExprSpec tokens maxDepth depth p outcome :=
  exists_exprSpec_of h fun opening => exists_formSpec maxDepth (depth + 1) opening

/-! ## Results -/

theorem exists_readExpr (maxDepth depth : Nat) (h : p ≤ tokens.length) :
    ∃ outcome, readExpr tokens maxDepth none depth p = some outcome ∧
      Moves tokens p (fun e q => Consumes tokens p e.tokens q) outcome := by
  obtain ⟨outcome, spec⟩ := exists_exprSpec maxDepth depth h
  exact ⟨outcome, spec.returns rfl nofun, spec.moves⟩

theorem exists_readForm (maxDepth depth : Nat) (h : tokens[i]? = some .openParen) :
    ∃ outcome, readForm tokens maxDepth none depth (i + 1) = some outcome ∧
      Moves tokens (i + 1) (fun e q => Consumes tokens i e.tokens q) outcome := by
  obtain ⟨outcome, spec⟩ := exists_formSpec maxDepth depth h
  exact ⟨outcome, spec.returns nofun, spec.moves⟩

theorem consumes_of_readExpr {e : Expr} (h : p ≤ tokens.length)
    (found : readExpr tokens maxDepth none depth p = some (.ok e, q)) :
    Consumes tokens p e.tokens q := by
  obtain ⟨outcome, returned, moves⟩ := exists_readExpr maxDepth depth h
  obtain rfl := Option.some.inj (found.symm.trans returned)
  cases moves with
  | ok consumed => exact consumed

/-- Any fuel with which all the forms may be entered that the limit lets pass gives what the open
forms give. -/
theorem exists_readExpr_eq_ofTokens (maxDepth : UInt64) (tokens : List Token) :
    ∃ q, ∀ {fuel rest : Fuel}, fuel.spend? = some rest → rest.Suffices maxDepth.toNat 1 →
      readExpr tokens maxDepth.toNat fuel 0 0 = some (Expr.ofTokens maxDepth tokens, q) := by
  obtain ⟨⟨result, q⟩, spec⟩ := exists_exprSpec maxDepth.toNat 0 (Nat.zero_le tokens.length)
  have agrees := spec.agrees [] rfl fun some => absurd rfl some
  rw [List.drop_zero] at agrees
  have same : result = Expr.ofTokens maxDepth tokens := by
    rw [Expr.ofTokens, agrees]
    cases result <;> rfl
  exact ⟨q, fun spent enough => same ▸ spec.returns spent enough⟩

end PolishCalc.Descent
