import PolishCalc.Proofs.Token.Clean

/-!
# Trimmed texts and their tokens

A text has no tokens exactly if trimming leaves nothing of it
(`tokenize_eq_nil_iff`). Its only token is an atom exactly if trimming leaves
the atom (`tokenize_eq_atom_iff`). So a word can be looked for in the trimmed
text as well as among the tokens.
-/

namespace PolishCalc

namespace Text

theorem trim_of_blank {s : String} (h : ∀ c ∈ s.toList, isBlank c = true) : trim s = "" := by
  simp [trim, List.dropWhile_eq_nil_iff.mpr h]

theorem dropWhile_blanks_append {blanks rest : List Char} (h : ∀ c ∈ blanks, isBlank c = true)
    (solid : ∀ c ∈ rest.head?, isBlank c = false) : (blanks ++ rest).dropWhile isBlank = rest := by
  rw [List.dropWhile_append_of_pos h]
  cases rest with
  | nil => rfl
  | cons c rest => exact List.dropWhile_cons_of_neg (by simp [solid c rfl])

/-- What stands between blanks is left if no blank is in it. -/
theorem trim_of_solid {s : String} {before word after : List Char} (ne : word ≠ [])
    (eq : s.toList = before ++ word ++ after) (blankBefore : ∀ c ∈ before, isBlank c = true)
    (solid : ∀ c ∈ word, isBlank c = false) (blankAfter : ∀ c ∈ after, isBlank c = true) :
    trim s = String.ofList word := by
  have front : s.toList.dropWhile isBlank = word ++ after := by
    rw [eq, List.append_assoc, dropWhile_blanks_append blankBefore]
    intro c hc
    rw [List.head?_append_of_ne_nil _ ne] at hc
    exact solid c (List.mem_of_mem_head? hc)
  have back : (after.reverse ++ word.reverse).dropWhile isBlank = word.reverse :=
    dropWhile_blanks_append (fun c hc => blankAfter c (List.mem_reverse.mp hc))
      fun c hc => solid c (List.mem_reverse.mp (List.mem_of_mem_head? hc))
  rw [trim, front, List.reverse_append, back, List.reverse_reverse]

end Text

namespace Token

open Text (isBlank trim)

/-! ## What is outside the pieces -/

/-- Runs of glued characters that are no pieces hold nothing but blanks. -/
theorem isBlank_of_mem_flatten {runs : List (List Char)}
    (h : ∀ run ∈ runs, ¬ (!run.all isBlank) = true) : ∀ c ∈ runs.flatten, isBlank c = true := by
  intro c hc
  obtain ⟨run, hr, hc⟩ := List.mem_flatten.mp hc
  have blank : run.all isBlank = true := by simpa using h run hr
  exact List.all_eq_true.mp blank c hc

theorem isBlank_of_pieces_eq_nil {cs : List Char} (h : pieces cs = []) :
    ∀ c ∈ cs, isBlank c = true := by
  have blank := isBlank_of_mem_flatten (List.filter_eq_nil_iff.mp h)
  rwa [List.flatten_splitBy] at blank

theorem eq_append_of_pieces_eq_singleton {cs piece : List Char} (h : pieces cs = [piece]) :
    ∃ before after, cs = before ++ piece ++ after ∧ (∀ c ∈ before, isBlank c = true) ∧
      ∀ c ∈ after, isBlank c = true := by
  obtain ⟨before, after, runs, blankBefore, -, rest⟩ := List.filter_eq_cons_iff.mp h
  refine ⟨before.flatten, after.flatten, ?_, isBlank_of_mem_flatten blankBefore,
    isBlank_of_mem_flatten (List.filter_eq_nil_iff.mp rest)⟩
  rw [← List.flatten_splitBy glued cs, runs]
  simp

/-! ## Trimmed texts -/

theorem tokenize_eq_nil_iff {s : String} : tokenize s = [] ↔ trim s = "" := by
  constructor
  · intro h
    exact Text.trim_of_blank (isBlank_of_pieces_eq_nil (List.map_eq_nil_iff.mp h))
  · intro h
    rw [← tokenize_trim, h]
    rfl

theorem tokenize_eq_atom_iff {s text : String} (clean : Clean text) :
    tokenize s = [.atom text] ↔ trim s = text := by
  constructor
  · intro h
    obtain ⟨piece, found, atom⟩ := List.map_eq_singleton_iff.mp h
    obtain ⟨rfl, -, -⟩ := ofText_eq_atom_iff.mp atom
    obtain ⟨before, after, eq, blankBefore, blankAfter⟩ := eq_append_of_pieces_eq_singleton found
    have mem : piece ∈ pieces s.toList := found ▸ List.mem_singleton.mpr rfl
    exact Text.trim_of_solid (ne_nil_of_mem_pieces mem) eq blankBefore (solid_of_mem_pieces mem)
      blankAfter
  · rintro rfl
    rw [← tokenize_trim, clean.tokenize_eq]

end Token

end PolishCalc
