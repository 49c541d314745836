import PolishCalc.Proofs.Token.Cut

/-!
# Clean texts

`Clean` says of a text, character by character, that it can be an atom. Every
atom that a text is cut into is clean (`clean_of_atom_mem_tokenize`), and a
clean text is cut into itself (`Clean.tokenize_eq`).
-/

namespace PolishCalc.Token

open Text (isBlank)

/-- The text is neither empty nor a parenthesis and has no blanks. A closing parenthesis may only
be its first character, and an opening one only its last. -/
structure Clean (text : String) : Prop where
  ne_empty : text ≠ ""
  ne_openParen : text ≠ "("
  ne_closeParen : text ≠ ")"
  solid : ∀ c ∈ text.toList, isBlank c = false
  not_opening : ∀ c ∈ text.toList.dropLast, c ≠ '('
  not_closing : ∀ c ∈ text.toList.tail, c ≠ ')'

/-! ## Runs of glued characters -/

theorem isChain_and_iff {α : Type} {p q : α → Prop} {xs : List α} :
    xs.IsChain (fun x y => p x ∧ q y) ↔ (∀ x ∈ xs.dropLast, p x) ∧ ∀ y ∈ xs.tail, q y := by
  induction xs with
  | nil => simp
  | cons x xs ih =>
    cases xs with
    | nil => simp
    | cons y xs =>
      rw [List.isChain_cons_cons, ih, List.dropLast_cons_cons, List.tail_cons, List.tail_cons,
        List.forall_mem_cons, List.forall_mem_cons]
      constructor
      · rintro ⟨⟨hx, hy⟩, front, back⟩
        exact ⟨⟨hx, front⟩, hy, back⟩
      · rintro ⟨⟨hx, front⟩, hy, back⟩
        exact ⟨⟨hx, hy⟩, front, back⟩

theorem isChain_glued_iff {cs : List Char} :
    (cs.IsChain fun c d => glued c d = true) ↔
      (∀ c ∈ cs.dropLast, isBlank c = false ∧ c ≠ '(') ∧
        ∀ d ∈ cs.tail, isBlank d = false ∧ d ≠ ')' := by
  simp only [glued_eq_true_iff]
  exact isChain_and_iff

/-! ## Pieces of a text -/

section Pieces

variable {piece cs : List Char}

theorem ne_nil_of_mem_pieces (h : piece ∈ pieces cs) : piece ≠ [] :=
  List.ne_nil_of_mem_splitBy (List.mem_of_mem_filter h)

theorem isChain_of_mem_pieces (h : piece ∈ pieces cs) :
    piece.IsChain fun c d => glued c d = true :=
  List.isChain_of_mem_splitBy (List.mem_of_mem_filter h)

theorem solid_of_mem_pieces (h : piece ∈ pieces cs) : ∀ c ∈ piece, isBlank c = false := by
  have chain := isChain_glued_iff.mp (isChain_of_mem_pieces h)
  have notBlank : piece.all isBlank = false := by simpa using (List.mem_filter.mp h).2
  match piece, chain, notBlank with
  | [], _, _ => nofun
  -- A single character is glued to nothing: it is solid because the piece is not blank.
  | [c], _, notBlank => simpa using notBlank
  | c :: d :: rest, ⟨front, back⟩, _ =>
    rw [List.forall_mem_cons]
    exact ⟨(front c List.mem_cons_self).1, fun x hx => (back x hx).1⟩

end Pieces

/-! ## Atoms -/

theorem ofText_eq_atom_iff {s text : String} :
    ofText s = .atom text ↔ s = text ∧ text ≠ "(" ∧ text ≠ ")" := by
  constructor
  · intro h
    obtain rfl : s = text := (text_ofText s).symm.trans (congrArg Token.text h)
    refine ⟨rfl, ?_, ?_⟩
    · rintro rfl
      exact absurd h (by decide)
    · rintro rfl
      exact absurd h (by decide)
  · rintro ⟨rfl, notOpening, notClosing⟩
    rw [ofText, if_neg notOpening, if_neg notClosing]

theorem clean_of_atom_mem_tokenize {s text : String} (h : .atom text ∈ tokenize s) :
    Clean text := by
  obtain ⟨piece, hp, hatom⟩ := List.mem_map.mp h
  obtain ⟨rfl, notOpening, notClosing⟩ := ofText_eq_atom_iff.mp hatom
  obtain ⟨front, back⟩ := isChain_glued_iff.mp (isChain_of_mem_pieces hp)
  refine ⟨?_, notOpening, notClosing, ?_, ?_, ?_⟩
  · simpa using ne_nil_of_mem_pieces hp
  · simpa using solid_of_mem_pieces hp
  · simpa using fun c hc => (front c hc).2
  · simpa using fun d hd => (back d hd).2

namespace Clean

variable {text : String}

theorem isChain_glued (h : Clean text) : text.toList.IsChain fun c d => glued c d = true := by
  rw [isChain_glued_iff]
  constructor
  · intro c hc
    exact ⟨h.solid c ((List.dropLast_sublist _).subset hc), h.not_opening c hc⟩
  · intro d hd
    exact ⟨h.solid d (List.mem_of_mem_tail hd), h.not_closing d hd⟩

theorem tokenize_eq (h : Clean text) : tokenize text = [.atom text] := by
  have ne : text.toList ≠ [] := by simpa using h.ne_empty
  have atom : ofText text = .atom text :=
    ofText_eq_atom_iff.mpr ⟨rfl, h.ne_openParen, h.ne_closeParen⟩
  rw [tokenize, pieces_eq_singleton ne h.solid h.isChain_glued, List.map_singleton,
    String.ofList_toList, atom]

end Clean

end PolishCalc.Token
