import PolishCalc.Proofs.Token.Cut

/-!
# Scanning a text from the left

`scan` passes over blanks and takes one token after the other off the front of a
text: an optional closing parenthesis, a run of ordinary characters and an
optional opening parenthesis. It stops where nothing but blanks is left and
finds the tokens of the text (`scan_eq`).
-/

namespace PolishCalc.Token

open Text (isBlank)

/-- Whether a run of ordinary characters ends at `c`. -/
def isBoundary (c : Char) : Bool :=
  isBlank c || c == '(' || c == ')'

/-- The character `c` at the start, if it is there, and what follows it. -/
def splitOptional (c : Char) : List Char → List Char × List Char
  | [] => ([], [])
  | d :: rest => if d = c then ([c], rest) else ([], d :: rest)

/-- The piece at the start, unless it is empty, and what follows it. -/
def next? (cs : List Char) : Option (List Char × List Char) :=
  let (closing, afterClosing) := splitOptional ')' cs
  let ordinary := afterClosing.takeWhile fun c => !isBoundary c
  let (opening, rest) := splitOptional '(' (afterClosing.dropWhile fun c => !isBoundary c)
  let piece := closing ++ ordinary ++ opening
  if piece = [] then none else some (piece, rest)

/-! ## The shape of a piece -/

/-- The parts of a piece that `rest` follows, with nothing in `rest` that belongs to it. -/
inductive IsPiece : (piece rest : List Char) → Prop where
  | mk {closing ordinary opening rest : List Char} : closing = [] ∨ closing = [')'] →
      (∀ c ∈ ordinary, isBoundary c = false) →
      opening = ['('] ∨ opening = [] ∧ (∀ c ∈ rest.head?, isBlank c = true ∨ c = ')') →
      closing ++ ordinary ++ opening ≠ [] → IsPiece (closing ++ ordinary ++ opening) rest

theorem isBoundary_eq_false_iff {c : Char} :
    isBoundary c = false ↔ isBlank c = false ∧ c ≠ '(' ∧ c ≠ ')' := by
  simp [isBoundary, and_assoc]

section Parts

variable {closing ordinary opening : List Char} {p : Prop}

/-- Only the last character of a piece may be an opening parenthesis. -/
theorem solid_of_mem_front (hclosing : closing = [] ∨ closing = [')'])
    (hordinary : ∀ c ∈ ordinary, isBoundary c = false) :
    ∀ c ∈ closing ++ ordinary, isBlank c = false ∧ c ≠ '(' := by
  intro c hc
  rcases List.mem_append.mp hc with hc | hc
  · rcases hclosing with rfl | rfl
    · cases hc
    · obtain rfl := List.mem_singleton.mp hc
      decide
  · obtain ⟨solid, notOpening, -⟩ := isBoundary_eq_false_iff.mp (hordinary c hc)
    exact ⟨solid, notOpening⟩

/-- Only the first character of a piece may be a closing parenthesis. -/
theorem solid_of_mem_back (hordinary : ∀ c ∈ ordinary, isBoundary c = false)
    (hopening : opening = ['('] ∨ opening = [] ∧ p) :
    ∀ c ∈ ordinary ++ opening, isBlank c = false ∧ c ≠ ')' := by
  intro c hc
  rcases List.mem_append.mp hc with hc | hc
  · obtain ⟨solid, -, notClosing⟩ := isBoundary_eq_false_iff.mp (hordinary c hc)
    exact ⟨solid, notClosing⟩
  · rcases hopening with rfl | ⟨rfl, -⟩
    · obtain rfl := List.mem_singleton.mp hc
      decide
    · cases hc

end Parts

theorem splitOptional_spec {c : Char} {cs found rest : List Char}
    (h : splitOptional c cs = (found, rest)) :
    cs = found ++ rest ∧ (found = [c] ∨ found = [] ∧ ∀ d ∈ rest.head?, d ≠ c) := by
  cases cs with
  | nil =>
    cases h
    exact ⟨rfl, .inr ⟨rfl, nofun⟩⟩
  | cons d tail =>
    simp only [splitOptional] at h
    split at h
    · next eq =>
      cases h
      exact ⟨by rw [eq]; rfl, .inl rfl⟩
    · next ne =>
      cases h
      exact ⟨rfl, .inr ⟨rfl, by simpa using ne⟩⟩

theorem splitOpening_spec {cs opening rest : List Char}
    (h : splitOptional '(' (cs.dropWhile fun c => !isBoundary c) = (opening, rest)) :
    cs = cs.takeWhile (fun c => !isBoundary c) ++ opening ++ rest ∧
      (opening = ['('] ∨ opening = [] ∧ ∀ c ∈ rest.head?, isBlank c = true ∨ c = ')') := by
  obtain ⟨dropped, cases⟩ := splitOptional_spec h
  constructor
  · rw [List.append_assoc, ← dropped, List.takeWhile_append_dropWhile]
  · refine cases.imp_right fun ⟨empty, other⟩ => ⟨empty, fun c hc => ?_⟩
    have boundary := List.head?_dropWhile_not (fun c => !isBoundary c) cs
    rw [dropped, empty, List.nil_append, hc] at boundary
    simp only [isBoundary, Bool.not_eq_false', Bool.or_eq_true, beq_iff_eq] at boundary
    exact boundary.imp_left fun h => h.resolve_right (other c hc)

theorem next?_spec {cs piece rest : List Char} (h : next? cs = some (piece, rest)) :
    cs = piece ++ rest ∧ IsPiece piece rest := by
  simp only [next?] at h
  generalize first : splitOptional ')' cs = closed at h
  obtain ⟨closing, afterClosing⟩ := closed
  generalize last : splitOptional '(' (afterClosing.dropWhile fun c => !isBoundary c) = opened at h
  obtain ⟨opening, afterOpening⟩ := opened
  obtain ⟨rfl, closingCases⟩ := splitOptional_spec first
  obtain ⟨eq, openingCases⟩ := splitOpening_spec last
  split at h
  · cases h
  · next ne =>
    cases h
    refine ⟨?_, .mk (closingCases.imp_right And.left).symm ?_ openingCases ne⟩
    · rw [List.append_assoc, List.append_assoc, ← List.append_assoc _ opening, ← eq]
    · intro c hc
      simpa using List.all_eq_true.mp List.all_takeWhile c hc

/-- Only a blank stops the scanner. -/
theorem next?_eq_none {cs : List Char} (h : next? cs = none) :
    ∀ c ∈ cs.head?, isBlank c = true := by
  simp only [next?] at h
  generalize first : splitOptional ')' cs = closed at h
  obtain ⟨closing, afterClosing⟩ := closed
  generalize last : splitOptional '(' (afterClosing.dropWhile fun c => !isBoundary c) = opened at h
  obtain ⟨opening, rest⟩ := opened
  obtain ⟨rfl, closingCases⟩ := splitOptional_spec first
  obtain ⟨eq, openingCases⟩ := splitOpening_spec last
  split at h
  · next empty =>
    simp only [List.append_eq_nil_iff] at empty
    obtain ⟨⟨rfl, ordinary⟩, rfl⟩ := empty
    rw [ordinary] at eq
    obtain rfl : afterClosing = rest := eq
    intro c hc
    have notClosing := (closingCases.resolve_left nofun).2 c hc
    exact ((openingCases.resolve_left nofun).2 c hc).resolve_right notClosing
  · cases h

/-! ## The scanner -/

/-- The pieces of a text, as the tokens they are written as. -/
def scan (cs : List Char) : List Token :=
  match _ : next? (cs.dropWhile isBlank) with
  | none => []
  | some (piece, rest) => ofText (String.ofList piece) :: scan rest
termination_by cs.length
decreasing_by
  obtain ⟨eq, shape⟩ := next?_spec ‹next? _ = _›
  cases shape with
  | mk _ _ _ ne =>
    have taken := List.length_pos_iff.mpr ne
    have kept := (List.dropWhile_sublist (l := cs) isBlank).length_le
    rw [eq, List.length_append] at kept
    omega

/-- Nothing but blanks is left when the scanner stops. -/
theorem dropWhile_eq_nil_of_next?_eq_none {cs : List Char}
    (h : next? (cs.dropWhile isBlank) = none) : cs.dropWhile isBlank = [] := by
  have stops := next?_eq_none h
  have solid := List.head?_dropWhile_not isBlank cs
  cases hd : cs.dropWhile isBlank with
  | nil => rfl
  | cons c rest =>
    rw [hd] at stops solid
    exact absurd (stops c rfl) (by simpa using solid)

/-! ## The scanner finds the pieces -/

namespace IsPiece

variable {piece rest : List Char}

theorem ne_nil (h : IsPiece piece rest) : piece ≠ [] := by
  cases h with
  | mk _ _ _ ne => exact ne

theorem isBlank_eq_false (h : IsPiece piece rest) : ∀ c ∈ piece, isBlank c = false := by
  cases h with
  | mk hclosing hordinary hopening _ =>
    intro c hc
    rcases List.mem_append.mp hc with hc | hc
    · exact (solid_of_mem_front hclosing hordinary c hc).1
    · exact (solid_of_mem_back hordinary hopening c (List.mem_append_right _ hc)).1

theorem isChain_glued (h : IsPiece piece rest) : piece.IsChain fun c d => glued c d = true := by
  cases h with
  | @mk closing ordinary opening _ hclosing hordinary hopening _ =>
    have glue : ∀ c ∈ closing ++ ordinary, ∀ d ∈ ordinary ++ opening, glued c d = true := by
      intro c hc d hd
      simp [glued, solid_of_mem_front hclosing hordinary c hc,
        solid_of_mem_back hordinary hopening d hd]
    have middle : ordinary.IsChain fun c d => glued c d = true :=
      (List.pairwise_of_forall_mem_list fun c hc d hd =>
        glue c (List.mem_append_right _ hc) d (List.mem_append_left _ hd)).isChain
    rw [List.isChain_append, List.isChain_append]
    refine ⟨⟨?_, middle, fun c hc d hd => ?_⟩, ?_, fun c hc d hd => ?_⟩
    · rcases hclosing with rfl | rfl <;> simp
    · exact glue c (by simp [List.mem_of_mem_getLast? hc]) d (by simp [List.mem_of_mem_head? hd])
    · rcases hopening with rfl | ⟨rfl, -⟩ <;> simp
    · exact glue c (List.mem_of_mem_getLast? hc) d (by simp [List.mem_of_mem_head? hd])

theorem apart (h : IsPiece piece rest) : Apart piece rest := by
  intro c hc d hd
  cases h with
  | mk _ _ hopening _ =>
    rcases hopening with rfl | ⟨-, hrest⟩
    · obtain rfl : '(' = c := by simpa using hc
      simp [glued]
    · rcases hrest d hd with hblank | rfl
      · simp [glued, hblank]
      · simp [glued]

theorem pieces_append (h : IsPiece piece rest) : pieces (piece ++ rest) = piece :: pieces rest := by
  rw [Token.pieces_append h.apart,
    pieces_eq_singleton h.ne_nil h.isBlank_eq_false h.isChain_glued, List.singleton_append]

end IsPiece

theorem scan_eq (cs : List Char) :
    scan cs = (pieces cs).map fun piece => ofText (String.ofList piece) := by
  fun_induction scan cs with
  | case1 cs h =>
    rw [← pieces_dropWhile, dropWhile_eq_nil_of_next?_eq_none h]
    rfl
  | case2 cs piece rest h ih =>
    obtain ⟨eq, shape⟩ := next?_spec h
    rw [← pieces_dropWhile cs, eq, shape.pieces_append, List.map_cons, ih]

end PolishCalc.Token
