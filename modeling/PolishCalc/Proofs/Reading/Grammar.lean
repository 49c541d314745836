import Mathlib.Data.Set.Subsingleton
import PolishCalc.Expr.Tokens

/-!
# The language of the reader

`OpenForm.written` lists the tokens that lead to some open forms, and
`OpenForm.Fits` says which open forms reading can hold within a limit. One token
appends itself to what is written and keeps the fit (`step_ok`), so reading ends
in one of three ways (`ends_read`): with an expression that accounts for the
tokens read, with no tokens left, or at a token that is refused. Conversely, the
tokens written lead to exactly their open forms (`read_written`).

So reading succeeds exactly on the token lists that start with the tokens of an
expression within the limit, and returns that expression
(`Expr.ofTokens_eq_ok_iff`). No list starts with the tokens of two expressions
(`Expr.eq_of_tokens_prefix`). That a form has at least three children is part of
the type of expressions.
-/

namespace PolishCalc

namespace OpenForm

/-- The tokens read since the outermost form was opened. -/
def written : List OpenForm → List Token
  | [] => []
  | form :: outer => written outer ++ .openParen :: form.children.reverse.flatMap Expr.tokens

/-- Each form knows its position, and its children leave the nesting within `maxDepth`. -/
inductive Fits (maxDepth : Nat) : List OpenForm → Prop where
  | nil : Fits maxDepth []
  | cons {form : OpenForm} {outer : List OpenForm} : Fits maxDepth outer →
      outer.length < maxDepth → form.position = (written outer).length →
      (∀ e ∈ form.children, outer.length + 1 + e.depth ≤ maxDepth) → Fits maxDepth (form :: outer)

theorem Fits.length_le {maxDepth : Nat} {forms : List OpenForm} (h : Fits maxDepth forms) :
    forms.length ≤ maxDepth := by
  cases h with
  | nil => exact Nat.zero_le _
  | cons _ hlt => exact hlt

theorem written_ne_nil {forms : List OpenForm} (h : forms ≠ []) : written forms ≠ [] := by
  cases forms with
  | nil => exact absurd rfl h
  | cons form outer => simp [written]

end OpenForm

namespace Progress

/-- The tokens read so far. -/
def written : Progress → List Token
  | complete e => e.tokens
  | pending forms => OpenForm.written forms

/-- Nothing read so far is nested more than `maxDepth` deep. -/
def Fits (maxDepth : Nat) : Progress → Prop
  | complete e => e.depth ≤ maxDepth
  | pending forms => OpenForm.Fits maxDepth forms

end Progress

namespace OpenForm

variable {maxDepth : Nat}

/-! ## One token -/

theorem place_spec {forms : List OpenForm} {e : Expr} (h : Fits maxDepth forms)
    (room : forms.length + e.depth ≤ maxDepth) :
    (place e forms).Fits maxDepth ∧ (place e forms).written = written forms ++ e.tokens := by
  cases h with
  | nil =>
    refine ⟨?_, rfl⟩
    show e.depth ≤ maxDepth
    simpa using room
  | @cons form outer hout hlt hpos hkids =>
    refine ⟨.cons hout hlt hpos ?_, ?_⟩
    · intro x hx
      rcases List.mem_cons.mp hx with rfl | hx
      · simpa using room
      · exact hkids x hx
    · simp [place, Progress.written, written]

/-- What a token that is accepted does. -/
theorem step_ok {forms : List OpenForm} {token : Token} {progress : Progress}
    (h : Fits maxDepth forms)
    (hs : step maxDepth forms (written forms).length token = .ok progress) :
    progress.Fits maxDepth ∧ progress.written = written forms ++ [token] := by
  cases token with
  | atom text =>
    obtain rfl := Except.ok.inj hs
    exact place_spec h h.length_le
  | openParen =>
    simp only [step] at hs
    split at hs
    · next hlt =>
      obtain rfl := Except.ok.inj hs
      exact ⟨.cons h hlt rfl (by simp), rfl⟩
    · cases hs
  | closeParen =>
    cases h with
    | nil => cases hs
    | @cons form outer hout hlt hpos hkids =>
      simp only [step] at hs
      split at hs
      · cases hs
      · next e he =>
        obtain rfl := Except.ok.inj hs
        have depth : e.depth ≤ maxDepth - outer.length - 1 + 1 := by
          refine (Expr.depth_le_of_ofChildren? he).mpr fun x hx => ?_
          have := hkids x (List.mem_reverse.mp hx)
          omega
        obtain ⟨fits, eq⟩ := place_spec hout (e := e) (by omega)
        refine ⟨fits, ?_⟩
        rw [eq, Expr.tokens_of_ofChildren? he]
        simp [written]

/-- Why a token is refused. -/
theorem step_error {forms : List OpenForm} {token : Token} {position : Nat} {error : SyntaxError}
    (hs : step maxDepth forms position token = .error error) :
    (token = .closeParen ∧ forms = [] ∧ error = .unexpectedClosingParen position) ∨
    (token = .openParen ∧ maxDepth ≤ forms.length ∧ error = .tooDeeplyNested maxDepth position) ∨
    (token = .closeParen ∧ ∃ form outer, forms = form :: outer ∧ form.children.length < 3 ∧
      error = .invalidExpression form.position) := by
  cases token with
  | atom text => cases hs
  | openParen =>
    simp only [step] at hs
    split at hs
    · cases hs
    · next hle => exact .inr (.inl ⟨rfl, by omega, (Except.error.inj hs).symm⟩)
  | closeParen =>
    cases forms with
    | nil => exact .inl ⟨rfl, rfl, (Except.error.inj hs).symm⟩
    | cons form outer =>
      simp only [step] at hs
      split at hs
      · next short =>
        have := Expr.ofChildren?_eq_none_iff.mp short
        exact .inr (.inr ⟨rfl, form, outer, rfl, by simpa using this, (Except.error.inj hs).symm⟩)
      · cases hs

/-! ## A whole run -/

/-- How reading some tokens from the start ends. -/
inductive Ends (maxDepth : Nat) (tokens : List Token) :
    Except SyntaxError (Expr × List Token) → Prop where
  | complete {e : Expr} {rest : List Token} : e.depth ≤ maxDepth → tokens = e.tokens ++ rest →
      Ends maxDepth tokens (.ok (e, rest))
  | exhausted {forms : List OpenForm} : Fits maxDepth forms → tokens = written forms →
      Ends maxDepth tokens (.error (.unexpectedEnd tokens.length))
  | refused {forms : List OpenForm} {token : Token} {rest : List Token} {error : SyntaxError} :
      Fits maxDepth forms → tokens = written forms ++ token :: rest →
      step maxDepth forms (written forms).length token = .error error →
      Ends maxDepth tokens (.error error)

theorem ends_read_of_fits (rest : List Token) : ∀ {forms : List OpenForm}, Fits maxDepth forms →
    Ends maxDepth (written forms ++ rest) (read maxDepth forms (written forms).length rest) := by
  induction rest with
  | nil =>
    intro forms h
    simpa [read] using Ends.exhausted h rfl
  | cons token rest ih =>
    intro forms h
    rw [read_cons]
    cases hs : step maxDepth forms (written forms).length token with
    | error error => exact .refused h rfl hs
    | ok progress =>
      obtain ⟨fits, eq⟩ := step_ok h hs
      cases progress with
      | complete e =>
        have eq : e.tokens = written forms ++ [token] := eq
        exact .complete fits (by simp [eq])
      | pending next =>
        have eq : written next = written forms ++ [token] := eq
        have := ih fits
        rwa [eq, List.append_assoc, List.length_append] at this

variable (maxDepth) in
theorem ends_read (tokens : List Token) : Ends maxDepth tokens (read maxDepth [] 0 tokens) :=
  ends_read_of_fits tokens .nil

theorem read_children_append (xs : List Expr) : ∀ {form : OpenForm} {outer : List OpenForm}
    (position : Nat) (rest : List Token), (∀ e ∈ xs, outer.length + 1 + e.depth ≤ maxDepth) →
    read maxDepth (form :: outer) position (xs.flatMap Expr.tokens ++ rest) =
      read maxDepth ({ form with children := xs.reverse ++ form.children } :: outer)
        (position + (xs.flatMap Expr.tokens).length) rest := by
  induction xs with
  | nil => intros; rfl
  | cons x xs ih =>
    intro form outer position rest h
    rw [List.forall_mem_cons] at h
    rw [List.flatMap_cons, List.append_assoc, read_tokens_append x _ _ _ h.1, place, resume,
      ih _ _ h.2]
    simp [Nat.add_assoc]

theorem read_written {forms : List OpenForm} (h : Fits maxDepth forms) (rest : List Token) :
    read maxDepth [] 0 (written forms ++ rest) =
      read maxDepth forms (written forms).length rest := by
  induction h generalizing rest with
  | nil => rfl
  | @cons form outer _ hlt hpos hkids ih =>
    obtain ⟨position, children⟩ := form
    obtain rfl : position = (written outer).length := hpos
    have kids : ∀ e ∈ children.reverse, outer.length + 1 + e.depth ≤ maxDepth :=
      fun e he => hkids e (List.mem_reverse.mp he)
    rw [written, List.append_assoc, ih, List.cons_append, read_cons, step, if_pos hlt, Except.bind,
      resume, read_children_append _ _ _ kids, List.length_append, List.length_cons]
    simp [Nat.add_assoc, Nat.add_comm 1]

end OpenForm

/-! ## What is accepted -/

namespace Expr

theorem ends_ofTokens (maxDepth : UInt64) (tokens : List Token) :
    ∃ result, OpenForm.Ends maxDepth.toNat tokens result ∧
      ofTokens maxDepth tokens = result.map Prod.fst :=
  ⟨_, OpenForm.ends_read maxDepth.toNat tokens, rfl⟩

theorem ofTokens_sound {maxDepth : UInt64} {tokens : List Token} {e : Expr}
    (h : ofTokens maxDepth tokens = .ok e) : e.depth ≤ maxDepth.toNat ∧ e.tokens <+: tokens := by
  obtain ⟨result, ends, eq⟩ := ends_ofTokens maxDepth tokens
  rw [eq] at h
  cases ends with
  | @complete _ rest hd ht =>
    obtain rfl := Except.ok.inj h
    exact ⟨hd, rest, ht.symm⟩
  | exhausted => cases h
  | refused => cases h

/-- The tokens of an expression do not start with the tokens of another one. -/
theorem eq_of_tokens_prefix {a b : Expr} {tokens : List Token} (ha : a.tokens <+: tokens)
    (hb : b.tokens <+: tokens) : a = b := by
  obtain ⟨more, rfl⟩ := ha
  obtain ⟨rest, eq⟩ := hb
  have readA := OpenForm.read_of_depth_le a more (Nat.le_max_left a.depth b.depth)
  have readB := OpenForm.read_of_depth_le b rest (Nat.le_max_right a.depth b.depth)
  rw [eq, readA] at readB
  exact congrArg Prod.fst (Except.ok.inj readB)

/-- Reading accepts the tokens of the expressions within the limit, whatever follows them, and
nothing else. -/
theorem ofTokens_eq_ok_iff (maxDepth : UInt64) (tokens : List Token) :
    (∀ e, ofTokens maxDepth tokens = .ok e ↔ e.depth ≤ maxDepth.toNat ∧ e.tokens <+: tokens) ∧
      {e : Expr | e.depth ≤ maxDepth.toNat ∧ e.tokens <+: tokens}.Subsingleton := by
  refine ⟨fun e => ⟨ofTokens_sound, ?_⟩, fun a ha b hb => eq_of_tokens_prefix ha.2 hb.2⟩
  rintro ⟨hd, rest, rfl⟩
  exact ofTokens_tokens_append e rest hd

end Expr

end PolishCalc
