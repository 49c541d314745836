import Mathlib.Logic.Relation
import PolishCalc.Proofs.Reading.Cursor

/-!
# The calls of the descending reader

`Starts` says which call or round of the loop over children follows from which,
when reading starts at the first token. All of them are well placed: the cursor
is not behind the end, no more forms are open than tokens have been read, and a
form is read after its opening parenthesis (`wellPlaced_of_reached`). A form ends
at the parenthesis that matches (`Consumes.exists_matching`).
-/

namespace PolishCalc

/-! ## Matching parentheses -/

/-- The tokens from the `i`-th to the `k`-th one. -/
def between (tokens : List Token) (i k : Nat) : List Token :=
  (tokens.drop i).take (k + 1 - i)

/-- From the opening parenthesis `i` to the closing one `j` as many are closed as are opened, and up
to no token before it. -/
structure Matching (tokens : List Token) (i j : Nat) : Prop where
  lt : i < j
  opening : tokens[i]? = some .openParen
  closing : tokens[j]? = some .closeParen
  balanced : (between tokens i j).count .openParen = (between tokens i j).count .closeParen
  first {k : Nat} : i ≤ k → k < j →
    (between tokens i k).count .closeParen < (between tokens i k).count .openParen

theorem Matching.unique {tokens : List Token} {i j j' : Nat} (h : Matching tokens i j)
    (h' : Matching tokens i j') : j = j' := by
  rcases Nat.lt_trichotomy j j' with less | same | greater
  · exact absurd h.balanced (Nat.ne_of_gt (h'.first (Nat.le_of_lt h.lt) less))
  · exact same
  · exact absurd h'.balanced (Nat.ne_of_gt (h.first (Nat.le_of_lt h'.lt) greater))

/-- Part of an expression leaves a form open. -/
theorem Unfinished.count_lt {maxDepth : Nat} {tokens : List Token} (h : Unfinished maxDepth tokens)
    (ne : tokens ≠ []) : tokens.count .closeParen < tokens.count .openParen := by
  obtain ⟨forms, -, rfl⟩ := OpenForm.exists_written_of_unfinished h
  have opened : forms ≠ [] := by
    rintro rfl
    exact ne rfl
  rw [OpenForm.count_openParen_written]
  exact Nat.lt_add_of_pos_right (List.length_pos_iff.mpr opened)

namespace Descent

variable {tokens : List Token} {maxDepth depth depth' i p q : Nat} {e : Expr}

theorem Consumes.between_eq {xs : List Token} {k : Nat} (consumed : Consumes tokens i xs q)
    (before : k < q) : between tokens i k = xs.take (k + 1 - i) := by
  have cursor := consumed.cursor
  rw [between, consumed.drop_eq, List.take_append_of_le_length (by omega)]

theorem Consumes.exists_matching (h : tokens[i]? = some .openParen)
    (consumed : Consumes tokens i e.tokens q) :
    ∃ j, (∀ k, Matching tokens i k ↔ k = j) ∧ q = j + 1 := by
  cases e with
  | leaf text =>
    have first := consumed.drop_eq
    rw [drop_of_getElem? h] at first
    cases first
  | form head operands =>
    generalize form : Expr.form head operands = e at consumed
    obtain ⟨front, some, tokens_eq⟩ : ∃ front, front ≠ [] ∧ e.tokens = front ++ [.closeParen] := by
      subst form
      exact ⟨.openParen :: (head.tokens ++ operands.tokens), List.cons_ne_nil _ _, rfl⟩
    have positive := List.length_pos_iff.mpr some
    have size : e.tokens.length = front.length + 1 := by rw [tokens_eq, List.length_append]; rfl
    have cursor : q = i + front.length + 1 := by rw [consumed.cursor, size]; rfl
    suffices matching : Matching tokens i (i + front.length) by
      refine ⟨i + front.length, fun k => ⟨fun other => other.unique matching, ?_⟩, cursor⟩
      rintro rfl
      exact matching
    refine ⟨by omega, h, ?_, ?_, fun {k} le before => ?_⟩
    · rw [← List.getElem?_drop, consumed.drop_eq, tokens_eq]
      simp
    · rw [consumed.between_eq (by omega), List.take_of_length_le (by omega)]
      exact e.count_openParen_tokens
    · rw [consumed.between_eq (by omega)]
      refine Unfinished.count_lt ⟨e, Nat.le_refl _, List.take_prefix _ _, fun all => ?_⟩
        fun none => ?_
      · have := congrArg List.length all
        rw [List.length_take] at this
        omega
      · have := congrArg List.length none
        rw [List.length_take, List.length_nil] at this
        omega

/-! ## Which calls are made -/

/-- A call, or a round of the loop over the children of a form. -/
inductive Activity where
  | expr (depth p : Nat)
  | form (depth p : Nat)
  | round (depth p : Nat)
  deriving DecidableEq, Repr

/-- The second activity is the first one's call, or its next round. -/
inductive Starts (tokens : List Token) (maxDepth : Nat) : Activity → Activity → Prop where
  | form {depth p : Nat} : tokens[p]? = some .openParen →
      Starts tokens maxDepth (.expr depth p) (.form (depth + 1) (p + 1))
  | loop {depth p : Nat} : depth ≤ maxDepth →
      Starts tokens maxDepth (.form depth p) (.round depth p)
  | child {depth p : Nat} {token : Token} : tokens[p]? = some token → token ≠ .closeParen →
      Starts tokens maxDepth (.round depth p) (.expr depth p)
  | next {depth p q : Nat} {token : Token} {e : Expr} : tokens[p]? = some token →
      token ≠ .closeParen → readExpr tokens maxDepth none depth p = some (.ok e, q) →
      Starts tokens maxDepth (.round depth p) (.round depth q)

/-- What happens while the first expression is read. -/
def Reached (tokens : List Token) (maxDepth : Nat) : Activity → Prop :=
  Relation.ReflTransGen (Starts tokens maxDepth) (.expr 0 0)

/-- The cursor is not behind the end, no more forms are open than tokens are before it, and a form
is read behind its opening parenthesis. -/
def WellPlaced (tokens : List Token) : Activity → Prop
  | .expr depth p => depth ≤ p ∧ p ≤ tokens.length
  | .form depth p => depth ≤ p ∧ p ≤ tokens.length ∧ ∃ i, p = i + 1 ∧ tokens[i]? = some .openParen
  | .round depth p => depth ≤ p ∧ p ≤ tokens.length

theorem wellPlaced_of_starts {a b : Activity} (h : Starts tokens maxDepth a b)
    (placed : WellPlaced tokens a) : WellPlaced tokens b := by
  cases h with
  | form opening =>
    exact ⟨Nat.succ_le_succ placed.1, lt_of_getElem? opening, _, rfl, opening⟩
  | loop => exact ⟨placed.1, placed.2.1⟩
  | child => exact placed
  | next found _ read =>
    have consumed := consumes_of_readExpr placed.2 read
    exact ⟨Nat.le_trans placed.1 (Nat.le_of_lt consumed.lt), consumed.le placed.2⟩

theorem wellPlaced_of_reached {a : Activity} (h : Reached tokens maxDepth a) :
    WellPlaced tokens a := by
  induction h with
  | refl => exact ⟨Nat.le_refl 0, Nat.zero_le _⟩
  | tail _ last ih => exact wellPlaced_of_starts last ih

theorem lt_of_starts_round (h : Starts tokens maxDepth (.round depth p) (.round depth' q)) :
    p < q := by
  cases h with
  | next found _ read => exact (consumes_of_readExpr (Nat.le_of_lt (lt_of_getElem? found)) read).lt

theorem ne_of_starts_expr (h : Starts tokens maxDepth (.round depth p) (.expr depth' q)) :
    q < tokens.length ∧ tokens[q]? ≠ some .closeParen := by
  cases h with
  | child found ne =>
    refine ⟨lt_of_getElem? found, fun closing => ne ?_⟩
    exact Option.some.inj (found.symm.trans closing)

/-- From any token on, reading an expression comes to an end, with the cursor behind its tokens or,
after a failure, not behind the end. So does reading a form behind its opening parenthesis, with the
cursor behind the matching one. The calls made for the first expression are well placed, every
round of a loop moves the cursor, and in none an expression is read that would start with a closing
parenthesis or behind the end. -/
theorem cursor_discipline (tokens : List Token) (maxDepth : UInt64) :
    (∀ depth p, p ≤ tokens.length →
      ∃ outcome, readExpr tokens maxDepth.toNat none depth p = some outcome ∧
        Moves tokens p (fun e q => q = p + e.tokens.length ∧ e.tokens <+: tokens.drop p ∧
          p < q ∧ q ≤ tokens.length) outcome) ∧
    (∀ depth i, tokens[i]? = some .openParen →
      ∃ outcome, readForm tokens maxDepth.toNat none depth (i + 1) = some outcome ∧
        Moves tokens (i + 1) (fun e q => q = i + e.tokens.length ∧ e.tokens <+: tokens.drop i ∧
          ∃ j, (∀ k, Matching tokens i k ↔ k = j) ∧ q = j + 1) outcome) ∧
    (∀ a, Reached tokens maxDepth.toNat a → WellPlaced tokens a) ∧
    (∀ depth depth' p q, Starts tokens maxDepth.toNat (.round depth p) (.round depth' q) → p < q) ∧
    (∀ depth depth' p q, Starts tokens maxDepth.toNat (.round depth p) (.expr depth' q) →
      q < tokens.length ∧ tokens[q]? ≠ some .closeParen) ∧
    ∃ q, readExpr tokens maxDepth.toNat none 0 0 = some (Expr.ofTokens maxDepth tokens, q) := by
  refine ⟨fun depth p le => ?_, fun depth i opening => ?_, fun a => ?_, fun _ _ _ _ => ?_,
    fun _ _ _ _ => ?_, ?_⟩
  · obtain ⟨outcome, returned, moves⟩ := exists_readExpr maxDepth.toNat depth le
    refine ⟨outcome, returned, moves.of_le (Nat.le_refl p) fun consumed => ?_⟩
    exact ⟨consumed.cursor, consumed.isPrefix, consumed.lt, consumed.le le⟩
  · obtain ⟨outcome, returned, moves⟩ := exists_readForm maxDepth.toNat depth opening
    refine ⟨outcome, returned, moves.of_le (Nat.le_refl _) fun consumed => ?_⟩
    exact ⟨consumed.cursor, consumed.isPrefix, consumed.exists_matching opening⟩
  · exact wellPlaced_of_reached
  · exact lt_of_starts_round
  · exact ne_of_starts_expr
  · obtain ⟨q, returned⟩ := exists_readExpr_eq_ofTokens maxDepth tokens
    exact ⟨q, returned rfl nofun⟩

/-- The form `(- 1 2)`, read in the second round of the loop of the form around it. -/
theorem cursor_discipline_nested :
    let tokens : List Token := [.openParen, .atom "+", .openParen, .atom "-", .atom "1", .atom "2",
      .closeParen, .atom "3", .closeParen, .closeParen]
    let inner : Expr := .form (.leaf "-") (.two (.leaf "1") (.leaf "2"))
    (readExpr tokens 2 none 1 2 = some (.ok inner, 7) ∧ 7 = 2 + inner.tokens.length) ∧
      (readForm tokens 2 none 2 3 = some (.ok inner, 7) ∧ Matching tokens 2 6) ∧
      (Reached tokens 2 (.round 1 2) ∧ WellPlaced tokens (.round 1 2)) ∧
      (Starts tokens 2 (.round 1 2) (.round 1 7) ∧ 2 < 7) ∧
      (Starts tokens 2 (.round 1 2) (.expr 1 2) ∧ tokens[2]? ≠ some .closeParen) := by
  intro tokens inner
  obtain ⟨exprs, forms, placed, rounds, children, -⟩ := cursor_discipline tokens 2
  have plus : readExpr tokens 2 none 1 1 = some (.ok (.leaf "+"), 2) := readExpr_of_atom rfl
  have minus : readExpr tokens 2 none 2 3 = some (.ok (.leaf "-"), 4) := readExpr_of_atom rfl
  have one : readExpr tokens 2 none 2 4 = some (.ok (.leaf "1"), 5) := readExpr_of_atom rfl
  have two : readExpr tokens 2 none 2 5 = some (.ok (.leaf "2"), 6) := readExpr_of_atom rfl
  have second : tokens[2]? = some .openParen := rfl
  have form : readForm tokens 2 none 2 3 = some (.ok inner, 7) := by
    have third : tokens[3]? = some (.atom "-") := rfl
    have fourth : tokens[4]? = some (.atom "1") := rfl
    have fifth : tokens[5]? = some (.atom "2") := rfl
    rw [readForm_of_le (by decide), readChildren_of_ok third nofun minus (by decide),
      readChildren_of_ok fourth nofun one (by decide),
      readChildren_of_ok fifth nofun two (by decide), readChildren_of_closeParen rfl]
    rfl
  have expr : readExpr tokens 2 none 1 2 = some (.ok inner, 7) :=
    (readExpr_of_openParen second).trans form
  have round : Starts tokens 2 (.round 1 2) (.round 1 7) := .next second nofun expr
  have child : Starts tokens 2 (.round 1 2) (.expr 1 2) := .child second nofun
  have reached : Reached tokens 2 (.round 1 2) :=
    (((Relation.ReflTransGen.refl.tail (.form rfl)).tail (.loop (by decide))).tail
      (.next rfl nofun plus))
  obtain ⟨_, sameExpr, movesExpr⟩ := exprs 1 2 (by decide)
  obtain rfl := Option.some.inj (expr.symm.trans sameExpr)
  obtain ⟨_, sameForm, movesForm⟩ := forms 2 2 second
  obtain rfl := Option.some.inj (form.symm.trans sameForm)
  cases movesExpr with
  | ok atExpr =>
    cases movesForm with
    | ok atForm =>
      obtain ⟨-, -, j, matching, last⟩ := atForm
      obtain rfl : j = 6 := by omega
      exact ⟨⟨expr, atExpr.1⟩, ⟨form, (matching 6).mpr rfl⟩, ⟨reached, placed _ reached⟩,
        ⟨round, rounds _ _ _ _ round⟩, child, (children _ _ _ _ child).2⟩

end Descent

end PolishCalc
