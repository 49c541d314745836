import PolishCalc.Proofs.Token.Clean
import PolishCalc.Proofs.Token.Scanner

/-!
# Spelling tokens

`spell` writes tokens one after the other, each with blanks after it. If no two
of them become one (`Separated`), the text is cut into the same tokens again
(`tokenize_spell`), and every text is written in this way (`tokenize_eq_iff_exists_spell`).
So cutting a text loses nothing but blanks, and it leads to exactly the lists of
tokens whose atoms are clean (`tokenize_image`).
-/

namespace PolishCalc.Token

open Text (isBlank)

/-- A token that a text may have: an atom has to be clean. -/
def IsClean : Token → Prop
  | atom text => Clean text
  | _ => True

/-- A clean token with the blanks after it. -/
structure Spelled where
  token : Token
  gap : String
  clean : token.IsClean
  blank : ∀ c ∈ gap.toList, isBlank c = true

def spell : List Spelled → String
  | [] => ""
  | part :: rest => part.token.text ++ part.gap ++ spell rest

/-- There are blanks between two tokens unless an opening parenthesis before them or a closing one
after them keeps the tokens apart. -/
def Separated (parts : List Spelled) : Prop :=
  parts.IsChain fun left right => left.gap ≠ "" ∨
    left.token.text.toList.getLast? = some '(' ∨ right.token.text.toList.head? = some ')'

/-! ## The text of one token -/

namespace IsClean

variable {token : Token}

theorem text_ne_empty (h : token.IsClean) : token.text ≠ "" := by
  cases token with
  | openParen => decide
  | closeParen => decide
  | atom text => exact h.ne_empty

theorem isBlank_eq_false_of_mem_text (h : token.IsClean) :
    ∀ c ∈ token.text.toList, isBlank c = false := by
  have openSolid : isBlank '(' = false := by decide
  have closeSolid : isBlank ')' = false := by decide
  cases token with
  | openParen => simpa [text] using openSolid
  | closeParen => simpa [text] using closeSolid
  | atom text => exact h.solid

theorem tokenize_text (h : token.IsClean) : tokenize token.text = [token] := by
  cases token with
  | openParen => decide
  | closeParen => decide
  | atom text => exact h.tokenize_eq

end IsClean

theorem isClean_of_mem_tokenize {s : String} {token : Token} (h : token ∈ tokenize s) :
    token.IsClean := by
  cases token with
  | openParen => trivial
  | closeParen => trivial
  | atom text => exact clean_of_atom_mem_tokenize h

/-! ## Cutting what was spelled -/

theorem head?_spell (part : Spelled) (rest : List Spelled) :
    (spell (part :: rest)).toList.head? = part.token.text.toList.head? := by
  have ne : part.token.text.toList ≠ [] := by simpa using part.clean.text_ne_empty
  rw [spell, String.append_assoc, String.toList_append, List.head?_append_of_ne_nil _ ne]

theorem Separated.gap_or_apart {part : Spelled} {rest : List Spelled}
    (h : Separated (part :: rest)) :
    part.gap ≠ "" ∨ Apart part.token.text.toList (spell rest).toList := by
  cases rest with
  | nil => exact .inr nofun
  | cons next rest =>
    rcases (List.isChain_cons_cons.mp h).1 with gap | opened | closed
    · exact .inl gap
    · exact .inr (.of_openParen opened)
    · exact .inr (.of_closeParen ((head?_spell next rest).trans closed))

theorem tokenize_spell {parts : List Spelled} (h : Separated parts) :
    tokenize (spell parts) = parts.map Spelled.token := by
  induction parts with
  | nil => rfl
  | cons part rest ih =>
    rw [spell, tokenize_append_blanks_append part.blank h.gap_or_apart, part.clean.tokenize_text,
      ih h.tail, List.map_cons, List.singleton_append]

theorem tokenize_blanks_append_spell {before : String} {parts : List Spelled}
    (blank : ∀ c ∈ before.toList, isBlank c = true) (h : Separated parts) :
    tokenize (before ++ spell parts) = parts.map Spelled.token := by
  rw [← tokenize_spell h, tokenize, String.toList_append, pieces_append_of_blank_left _ blank,
    tokenize]

/-! ## Spelling what was cut -/

/-- Where no blank follows a piece, a parenthesis keeps it apart from the next token. -/
theorem IsPiece.gap_or_paren {piece rest : List Char} {gap : String} {parts : List Spelled}
    (shape : IsPiece piece rest) (eq : String.ofList rest = gap ++ spell parts) :
    ∀ next ∈ parts.head?, gap ≠ "" ∨ piece.getLast? = some '(' ∨
      next.token.text.toList.head? = some ')' := by
  intro next hnext
  rw [or_iff_not_imp_left, not_not]
  rintro rfl
  obtain ⟨more, rfl⟩ := List.head?_eq_some_iff.mp hnext
  have start : rest.head? = next.token.text.toList.head? := by
    rw [← head?_spell next more, ← String.empty_append (s := spell _), ← eq, String.toList_ofList]
  cases shape with
  | mk _ _ hopening _ =>
    rcases hopening with rfl | ⟨-, hrest⟩
    · exact .inl (by simp)
    · obtain ⟨c, hc⟩ : ∃ c, next.token.text.toList.head? = some c := by
        simpa [← Option.isSome_iff_exists] using next.clean.text_ne_empty
      have solid := next.clean.isBlank_eq_false_of_mem_text c (List.mem_of_head? hc)
      rcases hrest c (start.trans hc) with blank | rfl
      · rw [solid] at blank
        cases blank
      · exact .inr hc

theorem tokenize_ofList (cs : List Char) : tokenize (String.ofList cs) = scan cs := by
  rw [tokenize, String.toList_ofList, scan_eq]

theorem exists_spell_scan (cs : List Char) :
    ∃ before parts, (∀ c ∈ before.toList, isBlank c = true) ∧ Separated parts ∧
      parts.map Spelled.token = scan cs ∧ String.ofList cs = before ++ spell parts := by
  have clean : ∀ token ∈ scan cs, token.IsClean := fun token mem =>
    isClean_of_mem_tokenize (tokenize_ofList cs ▸ mem)
  fun_induction scan cs with
  | case1 cs h =>
    have blank : ∀ c ∈ cs, isBlank c = true :=
      List.dropWhile_eq_nil_iff.mp (dropWhile_eq_nil_of_next?_eq_none h)
    exact ⟨String.ofList cs, [], by simpa using blank, .nil, rfl, by simp [spell]⟩
  | case2 cs piece rest h ih =>
    obtain ⟨eq, shape⟩ := next?_spec h
    obtain ⟨cleanHere, cleanRest⟩ := List.forall_mem_cons.mp clean
    obtain ⟨gap, parts, blank, separated, tokens, same⟩ := ih cleanRest
    refine ⟨String.ofList (cs.takeWhile isBlank),
      ⟨ofText (String.ofList piece), gap, cleanHere, blank⟩ :: parts, ?_, ?_, ?_, ?_⟩
    · rw [String.toList_ofList]
      exact fun c hc => List.mem_takeWhile_imp hc
    · exact List.isChain_cons.mpr ⟨by simpa using shape.gap_or_paren same, separated⟩
    · rw [List.map_cons, tokens]
    · rw [spell, text_ofText, String.append_assoc, ← same, ← String.ofList_append,
        ← String.ofList_append, ← eq, List.takeWhile_append_dropWhile]

theorem tokenize_eq_iff_exists_spell {s : String} {tokens : List Token} :
    tokenize s = tokens ↔ ∃ before parts, (∀ c ∈ before.toList, isBlank c = true) ∧
      Separated parts ∧ parts.map Spelled.token = tokens ∧ s = before ++ spell parts := by
  constructor
  · rintro rfl
    obtain ⟨before, parts, blank, separated, tokens, same⟩ := exists_spell_scan s.toList
    rw [← tokenize_ofList, String.ofList_toList] at tokens
    exact ⟨before, parts, blank, separated, tokens, String.ofList_toList.symm.trans same⟩
  · rintro ⟨before, parts, blank, separated, rfl, rfl⟩
    exact tokenize_blanks_append_spell blank separated

/-! ## What is lost -/

theorem filter_eq_nil_of_blank {cs : List Char} (h : ∀ c ∈ cs, isBlank c = true) :
    cs.filter (!isBlank ·) = [] :=
  List.filter_eq_nil_iff.mpr fun c hc => by simp [h c hc]

theorem filter_spell (parts : List Spelled) :
    (spell parts).toList.filter (!isBlank ·) =
      (String.join ((parts.map Spelled.token).map text)).toList := by
  induction parts with
  | nil => rfl
  | cons part rest ih =>
    have kept : part.token.text.toList.filter (!isBlank ·) = part.token.text.toList :=
      List.filter_eq_self.mpr fun c hc => by simp [part.clean.isBlank_eq_false_of_mem_text c hc]
    simp only [spell, String.toList_append, List.filter_append, kept,
      filter_eq_nil_of_blank part.blank, ih, List.append_nil, List.map_cons, String.join_cons]

theorem join_text_tokenize (s : String) :
    String.join ((tokenize s).map text) = String.ofList (s.toList.filter (!isBlank ·)) := by
  obtain ⟨before, parts, blank, -, tokens, eq⟩ :=
    tokenize_eq_iff_exists_spell.mp (Eq.refl (tokenize s))
  rw [← tokens, ← String.toList_inj, String.toList_ofList, ← filter_spell, eq, String.toList_append,
    List.filter_append, filter_eq_nil_of_blank blank, List.nil_append]

/-! ## Which lists of tokens there are -/

theorem exists_tokenize_eq_iff {tokens : List Token} :
    (∃ s, tokenize s = tokens) ↔ ∀ token ∈ tokens, token.IsClean := by
  constructor
  · rintro ⟨s, rfl⟩ token
    exact isClean_of_mem_tokenize
  · intro clean
    have space : isBlank ' ' = true := by decide
    have blank : ∀ c ∈ " ".toList, isBlank c = true := by simpa using space
    let parts := tokens.pmap (fun token clean => Spelled.mk token " " clean blank) clean
    have spaced : Separated parts := by
      refine (List.pairwise_of_forall_mem_list fun left mem _ _ => .inl ?_).isChain
      obtain ⟨token, _, rfl⟩ := List.mem_pmap.mp mem
      simp
    refine ⟨spell parts, ?_⟩
    rw [tokenize_spell spaced, List.map_pmap, List.pmap_eq_map, List.map_id']

/-- The tokens of a text are clean and spell it without its blanks. Exactly the texts that spell
tokens, with blanks before, between and after them and none missing where two tokens would become
one, are cut into these tokens, and there are such texts for all clean tokens. -/
theorem tokenize_image :
    (∀ s, (∀ token ∈ tokenize s, token.IsClean) ∧
      String.join ((tokenize s).map text) = String.ofList (s.toList.filter (!isBlank ·))) ∧
    (∀ s tokens, tokenize s = tokens ↔ ∃ before parts, (∀ c ∈ before.toList, isBlank c = true) ∧
      Separated parts ∧ parts.map Spelled.token = tokens ∧ s = before ++ spell parts) ∧
    ∀ tokens, (∃ s, tokenize s = tokens) ↔ ∀ token ∈ tokens, token.IsClean := by
  refine ⟨fun s => ⟨fun token => isClean_of_mem_tokenize, join_text_tokenize s⟩, fun s tokens => ?_,
    fun tokens => ?_⟩
  · exact tokenize_eq_iff_exists_spell
  · exact exists_tokenize_eq_iff

/-- No blank is needed after `a(`, but without one between them the parentheses would be one
token. -/
theorem tokenize_image_parens :
    let tokens : List Token := [.atom "a(", .closeParen, .openParen]
    (∀ token ∈ tokens, token.IsClean) ∧ tokenize "\u2003a()\t(" = tokens ∧
      tokenize "a()(" ≠ tokens ∧ ∃ s, tokenize s = tokens := by
  intro tokens
  obtain ⟨cut, spelled, image⟩ := tokenize_image
  have clean : ∀ token ∈ tokens, token.IsClean := (cut "a() (").1
  have atom : IsClean (.atom "a(") := clean _ (by decide)
  have tab : isBlank '\t' = true := by decide
  have wide : isBlank '\u2003' = true := by decide
  let parts : List Spelled :=
    [⟨.atom "a(", "", atom, nofun⟩, ⟨.closeParen, "\t", trivial, by simpa using tab⟩,
      ⟨.openParen, "", trivial, nofun⟩]
  have separated : Separated parts :=
    .cons_cons (.inr (.inl (by simp [text]))) (.cons_cons (.inl (by simp)) (.singleton _))
  have lead : ∀ c ∈ "\u2003".toList, isBlank c = true := by simpa using wide
  exact ⟨clean, (spelled _ _).mpr ⟨"\u2003", parts, lead, separated, rfl, rfl⟩, by decide,
    (image tokens).mpr clean⟩

end PolishCalc.Token
