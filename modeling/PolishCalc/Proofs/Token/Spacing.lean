import PolishCalc.Proofs.Token.Scanner

/-!
# Tokens as words

The tokens of a text are the words of the text in which a space stands after
every opening and before every closing parenthesis. The scanner, which adds no
spaces, finds the same ones (`tokenize_eq_words`).
-/

namespace PolishCalc

namespace Text

/-- The text with `new` in the place of every `c`. -/
def replace (c : Char) (new cs : List Char) : List Char :=
  cs.flatMap fun d => if d = c then new else [d]

/-- What stands between blank characters, without the empty pieces. -/
def words (cs : List Char) : List (List Char) :=
  (cs.splitOnP isBlank).filter (· ≠ [])

theorem words_cons_of_isBlank {c : Char} (hc : isBlank c = true) (cs : List Char) :
    words (c :: cs) = words cs := by
  simp [words, List.splitOnP_cons_eq_if_modifyHead, hc]

theorem words_append {word rest : List Char} (ne : word ≠ [])
    (solid : ∀ c ∈ word, isBlank c = false) (apart : ∀ c ∈ rest.head?, isBlank c = true) :
    words (word ++ rest) = word :: words rest := by
  cases rest with
  | nil => simp [words, List.splitOnP_eq_singleton solid, ne]
  | cons c rest =>
    have hc : isBlank c = true := apart c rfl
    rw [words_cons_of_isBlank hc, words, List.splitOnP_append_cons_of_forall_mem solid c hc]
    simp [words, ne]

end Text

namespace Token

open Text (isBlank words replace words_cons_of_isBlank words_append)

/-- The text with a space after every opening and before every closing parenthesis. -/
def spaced (cs : List Char) : List Char :=
  replace ')' [' ', ')'] (replace '(' ['(', ' '] cs)

theorem spaced_append (cs ds : List Char) : spaced (cs ++ ds) = spaced cs ++ spaced ds := by
  simp [spaced, replace]

@[simp] theorem spaced_openParen_cons (cs : List Char) :
    spaced ('(' :: cs) = '(' :: ' ' :: spaced cs := by
  simp [spaced, replace]

@[simp] theorem spaced_closeParen_cons (cs : List Char) :
    spaced (')' :: cs) = ' ' :: ')' :: spaced cs := by
  simp [spaced, replace]

theorem spaced_cons {c : Char} (ho : c ≠ '(') (hc : c ≠ ')') (cs : List Char) :
    spaced (c :: cs) = c :: spaced cs := by
  simp [spaced, replace, ho, hc]

theorem spaced_cons_of_isBlank {c : Char} (h : isBlank c = true) (cs : List Char) :
    spaced (c :: cs) = c :: spaced cs := by
  apply spaced_cons <;> rintro rfl <;> exact absurd h (by decide)

theorem spaced_of_ordinary {cs : List Char} (h : ∀ c ∈ cs, isBoundary c = false) :
    spaced cs = cs := by
  induction cs with
  | nil => rfl
  | cons c cs ih =>
    rw [List.forall_mem_cons] at h
    have ⟨hc, hcs⟩ := h
    obtain ⟨-, notOpening, notClosing⟩ := isBoundary_eq_false_iff.mp hc
    rw [spaced_cons notOpening notClosing, ih hcs]

/-- What does not depend on one blank at the start does not depend on all of them. -/
theorem apply_dropWhile_isBlank {α : Type} {f : List Char → α}
    (h : ∀ {c : Char} (cs : List Char), isBlank c = true → f (c :: cs) = f cs) (cs : List Char) :
    f (cs.dropWhile isBlank) = f cs := by
  induction cs with
  | nil => rfl
  | cons c cs ih =>
    rw [List.dropWhile_cons]
    split
    · next hc => rw [ih, h cs hc]
    · rfl

theorem words_spaced_dropWhile (cs : List Char) :
    words (spaced (cs.dropWhile isBlank)) = words (spaced cs) := by
  refine apply_dropWhile_isBlank (f := fun cs => words (spaced cs)) (fun cs hc => ?_) cs
  rw [spaced_cons_of_isBlank hc, words_cons_of_isBlank hc]

/-- A word ends where a piece does: at a space that was added or at a blank that was there. -/
theorem IsPiece.words_spaced_append {piece rest : List Char} (h : IsPiece piece rest) :
    words (spaced (piece ++ rest)) = piece :: words (spaced rest) := by
  have solid := h.isBlank_eq_false
  have blank : isBlank ' ' = true := by decide
  cases h with
  | @mk closing ordinary opening _ hclosing hordinary hopening ne =>
    have lead (cs : List Char) : words (spaced (closing ++ cs)) = words (closing ++ spaced cs) := by
      rcases hclosing with rfl | rfl
      · rfl
      · exact words_cons_of_isBlank blank _
    rw [List.append_assoc, List.append_assoc, lead, spaced_append, spaced_of_ordinary hordinary]
    rcases hopening with rfl | ⟨rfl, hrest⟩
    · have apart : ∀ c ∈ (' ' :: spaced rest).head?, isBlank c = true := by simpa using blank
      have cut := words_append ne solid apart
      rw [words_cons_of_isBlank blank] at cut
      simpa using cut
    · have apart : ∀ c ∈ (spaced rest).head?, isBlank c = true := by
        cases rest with
        | nil => nofun
        | cons d rest =>
          rcases hrest d rfl with hd | rfl
          · simpa [spaced_cons_of_isBlank hd] using hd
          · simpa using blank
      simpa using words_append ne solid apart

theorem scan_eq_words (cs : List Char) :
    scan cs = (words (spaced cs)).map fun word => ofText (String.ofList word) := by
  fun_induction scan cs with
  | case1 cs h =>
    rw [← words_spaced_dropWhile, dropWhile_eq_nil_of_next?_eq_none h]
    rfl
  | case2 cs piece rest h ih =>
    obtain ⟨eq, shape⟩ := next?_spec h
    rw [← words_spaced_dropWhile cs, eq, shape.words_spaced_append, List.map_cons, ih]

theorem ofText_ofList (word : List Char) :
    ofText (String.ofList word) =
      if word = ['('] then .openParen
      else if word = [')'] then .closeParen
      else .atom (String.ofList word) := by
  have opening : String.ofList word = "(" ↔ word = ['('] := String.ofList_inj
  have closing : String.ofList word = ")" ↔ word = [')'] := String.ofList_inj
  simp only [ofText, opening, closing]

/-- Scanning a text and cutting its spaced form into words give the same tokens. A word is an atom
unless it is a single parenthesis. -/
theorem tokenize_eq_words (s : String) :
    tokenize s = scan s.toList ∧
      tokenize s = (words (spaced s.toList)).map fun word =>
        if word = ['('] then .openParen
        else if word = [')'] then .closeParen
        else .atom (String.ofList word) := by
  have scanned : tokenize s = scan s.toList := (scan_eq s.toList).symm
  refine ⟨scanned, ?_⟩
  rw [scanned, scan_eq_words]
  exact List.map_congr_left fun word _ => ofText_ofList word

-- An opening parenthesis ends the token that it follows, and a closing one starts a token.
example : tokenize "(+ a(b )c)" =
    [.openParen, .atom "+", .atom "a(", .atom "b", .atom ")c", .closeParen] := by
  decide

end Token

end PolishCalc
