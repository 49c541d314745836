import Mathlib.Data.List.SplitBy
import Mathlib.Data.List.TakeWhile
import PolishCalc.Token

/-!
# Cutting a text in two

If no token reaches from one half of a text into the other, the tokens of the
text are those of the first half and then those of the second
(`tokenize_append`). So a text may be cut at a blank, after an opening and
before a closing parenthesis. Blanks at its ends do not count (`tokenize_trim`),
and within it only whether there are any (`tokenize_respace`).
-/

namespace PolishCalc.Token

open Text (isBlank trim)

/-- No token reaches from `cs` into `ds`. -/
def Apart (cs ds : List Char) : Prop :=
  ∀ c ∈ cs.getLast?, ∀ d ∈ ds.head?, glued c d = false

theorem glued_eq_false_iff {c d : Char} :
    glued c d = false ↔ isBlank c = true ∨ c = '(' ∨ isBlank d = true ∨ d = ')' := by
  cases hc : isBlank c <;> cases hd : isBlank d <;> simp [glued, hc, hd, or_iff_not_imp_left]

theorem glued_eq_true_iff {c d : Char} :
    glued c d = true ↔ (isBlank c = false ∧ c ≠ '(') ∧ isBlank d = false ∧ d ≠ ')' := by
  simp [glued, and_assoc]

namespace Apart

variable {cs ds : List Char}

theorem of_openParen (h : cs.getLast? = some '(') : Apart cs ds := by
  intro c hc d _
  obtain rfl : '(' = c := by simpa [h] using hc
  exact glued_eq_false_iff.mpr (.inr (.inl rfl))

theorem of_closeParen (h : ds.head? = some ')') : Apart cs ds := by
  intro c _ d hd
  obtain rfl : ')' = d := by simpa [h] using hd
  exact glued_eq_false_iff.mpr (.inr (.inr (.inr rfl)))

end Apart

/-! ## Pieces -/

theorem pieces_append {cs ds : List Char} (h : Apart cs ds) :
    pieces (cs ++ ds) = pieces cs ++ pieces ds := by
  rw [pieces, List.splitBy_append h, List.filter_append]
  rfl

theorem pieces_eq_nil {cs : List Char} (h : ∀ c ∈ cs, isBlank c = true) : pieces cs = [] := by
  rw [pieces, List.filter_eq_nil_iff]
  intro piece hp
  have inside : ∀ c ∈ piece, c ∈ cs := fun c hc =>
    List.flatten_splitBy glued cs ▸ List.mem_flatten_of_mem hp hc
  have blank : piece.all isBlank = true := List.all_eq_true.mpr fun c hc => h c (inside c hc)
  simp [blank]

theorem pieces_eq_singleton {cs : List Char} (ne : cs ≠ []) (solid : ∀ c ∈ cs, isBlank c = false)
    (chain : cs.IsChain fun c d => glued c d = true) : pieces cs = [cs] := by
  obtain ⟨c, hc⟩ := List.exists_mem_of_ne_nil _ ne
  have notBlank : cs.all isBlank = false := List.all_eq_false.mpr ⟨c, hc, by simp [solid c hc]⟩
  simp [pieces, List.splitBy_of_isChain ne chain, notBlank]

/-! ## Tokens -/

theorem tokenize_append {s t : String} (h : Apart s.toList t.toList) :
    tokenize (s ++ t) = tokenize s ++ tokenize t := by
  rw [tokenize, String.toList_append, pieces_append h, List.map_append]
  rfl

theorem tokenize_openParen_append (t : String) :
    tokenize ("(" ++ t) = .openParen :: tokenize t := by
  rw [tokenize_append (.of_openParen rfl)]
  rfl

theorem tokenize_append_closeParen (s : String) :
    tokenize (s ++ ")") = tokenize s ++ [.closeParen] := by
  rw [tokenize_append (.of_closeParen rfl)]
  rfl

/-! ## Blanks at the ends -/

theorem pieces_append_of_blank_left {cs : List Char} (ds : List Char)
    (h : ∀ c ∈ cs, isBlank c = true) : pieces (cs ++ ds) = pieces ds := by
  have cut : Apart cs ds := fun c hc _ _ =>
    glued_eq_false_iff.mpr (.inl (h c (List.mem_of_mem_getLast? hc)))
  rw [pieces_append cut, pieces_eq_nil h, List.nil_append]

theorem pieces_append_of_blank_right (cs : List Char) {ds : List Char}
    (h : ∀ c ∈ ds, isBlank c = true) : pieces (cs ++ ds) = pieces cs := by
  have cut : Apart cs ds := fun _ _ d hd =>
    glued_eq_false_iff.mpr (.inr (.inr (.inl (h d (List.mem_of_mem_head? hd)))))
  rw [pieces_append cut, pieces_eq_nil h, List.append_nil]

theorem pieces_dropWhile (cs : List Char) : pieces (cs.dropWhile isBlank) = pieces cs := by
  have blank : ∀ c ∈ cs.takeWhile isBlank, isBlank c = true :=
    fun c hc => List.mem_takeWhile_imp hc
  rw [← pieces_append_of_blank_left (cs.dropWhile isBlank) blank, List.takeWhile_append_dropWhile]

theorem pieces_reverse_dropWhile (cs : List Char) :
    pieces (cs.reverse.dropWhile isBlank).reverse = pieces cs := by
  have blank : ∀ c ∈ (cs.reverse.takeWhile isBlank).reverse, isBlank c = true :=
    fun c hc => List.mem_takeWhile_imp (List.mem_reverse.mp hc)
  rw [← pieces_append_of_blank_right _ blank, ← List.reverse_append,
    List.takeWhile_append_dropWhile, List.reverse_reverse]

/-- Blanks at the ends of a text add no tokens. -/
theorem tokenize_trim (s : String) : tokenize (trim s) = tokenize s := by
  rw [tokenize, trim, String.toList_ofList, pieces_reverse_dropWhile, pieces_dropWhile]
  rfl

/-! ## Blanks in between -/

theorem pieces_append_blanks_append {cs gap ds : List Char} (h : ∀ c ∈ gap, isBlank c = true)
    (cut : gap ≠ [] ∨ Apart cs ds) : pieces (cs ++ gap ++ ds) = pieces cs ++ pieces ds := by
  rcases gap with _ | ⟨c, gap⟩
  · rw [List.append_nil, pieces_append (cut.resolve_left (not_not_intro rfl))]
  · have after : Apart (cs ++ c :: gap) ds := by
      intro d hd _ _
      rw [List.getLast?_append_cons] at hd
      exact glued_eq_false_iff.mpr (.inl (h d (List.mem_of_mem_getLast? hd)))
    rw [pieces_append after, pieces_append_of_blank_right cs h]

/-- Blanks between two texts separate their tokens, however many there are. Where a text may be cut
anyway, none are needed. -/
theorem tokenize_append_blanks_append {s gap t : String} (h : ∀ c ∈ gap.toList, isBlank c = true)
    (cut : gap ≠ "" ∨ Apart s.toList t.toList) :
    tokenize (s ++ gap ++ t) = tokenize s ++ tokenize t := by
  have cut : gap.toList ≠ [] ∨ Apart s.toList t.toList := by simpa using cut
  rw [tokenize, String.toList_append, String.toList_append, pieces_append_blanks_append h cut,
    List.map_append]
  rfl

/-- Blanks may come and go at the ends of a text, after an opening and before a closing
parenthesis; elsewhere some may take the place of others. -/
theorem tokenize_respace {s gap gap' t : String} (h : ∀ c ∈ gap.toList, isBlank c = true)
    (h' : ∀ c ∈ gap'.toList, isBlank c = true)
    (cut : s = "" ∨ t = "" ∨ s.toList.getLast? = some '(' ∨ t.toList.head? = some ')' ∨
      gap ≠ "" ∧ gap' ≠ "") : tokenize (s ++ gap ++ t) = tokenize (s ++ gap' ++ t) := by
  have either : gap ≠ "" ∧ gap' ≠ "" ∨ Apart s.toList t.toList := by
    rcases cut with rfl | rfl | opened | closed | both
    · exact .inr nofun
    · exact .inr nofun
    · exact .inr (.of_openParen opened)
    · exact .inr (.of_closeParen closed)
    · exact .inl both
  rw [tokenize_append_blanks_append h (either.imp_left And.left),
    tokenize_append_blanks_append h' (either.imp_left And.right)]

theorem tokenize_append_space_append (s t : String) :
    tokenize (s ++ " " ++ t) = tokenize s ++ tokenize t := by
  have blank : isBlank ' ' = true := by decide
  exact tokenize_append_blanks_append (by simpa using blank) (.inl (by decide))

end PolishCalc.Token
