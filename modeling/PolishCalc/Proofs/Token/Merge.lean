import PolishCalc.Proofs.Token.Clean

/-!
# Tokens across a cut

A text may be cut in two where one half is empty, at a blank, after an opening
and before a closing parenthesis (`MayCut`). Then the tokens of the halves are
those of the text. Anywhere else one token reaches across the cut, and the
halves have its two parts instead (`tokenize_append_iff`).
-/

namespace List

variable {α : Type*} {r : α → α → Bool} {xs ys x y : List α} {front back : List (List α)}

/-- Two lists that are joined by a related pair have one run across the joint. -/
theorem splitBy_append_of_rel (hx : xs.splitBy r = front ++ [x]) (hy : ys.splitBy r = y :: back)
    (joint : ∀ a ∈ xs.getLast?, ∀ b ∈ ys.head?, r a b = true) :
    (xs ++ ys).splitBy r = front ++ (x ++ y) :: back := by
  obtain ⟨rfl, full, runs, cuts⟩ := splitBy_eq_iff.mp hx
  obtain ⟨rfl, full', runs', cuts'⟩ := splitBy_eq_iff.mp hy
  have hx : x ≠ [] := by rintro rfl; simp at full
  have hy : y ≠ [] := by rintro rfl; simp at full'
  have joint : ∀ a ∈ x.getLast?, ∀ b ∈ y.head?, r a b = true := by
    simpa [getLast?_append_of_ne_nil, head?_append_of_ne_nil, hx, hy] using joint
  rw [isChain_append] at cuts
  rw [isChain_cons] at cuts'
  obtain ⟨cutsFront, -, cutBefore⟩ := cuts
  obtain ⟨cutAfter, cutsBack⟩ := cuts'
  rw [splitBy_eq_iff]
  refine ⟨by simp, by simp_all, ?_, ?_⟩
  · rw [forall_mem_append, forall_mem_cons]
    rw [forall_mem_append, forall_mem_singleton] at runs
    rw [forall_mem_cons] at runs'
    exact ⟨runs.1, isChain_append.mpr ⟨runs.2, runs'.1, joint⟩, runs'.2⟩
  · rw [isChain_append, isChain_cons]
    refine ⟨cutsFront, ⟨?_, cutsBack⟩, ?_⟩
    · intro b hb
      obtain ⟨_, hb', apart⟩ := cutAfter b hb
      exact ⟨by simp [hx], hb', by simpa [hy] using apart⟩
    · intro a ha _ same
      obtain rfl : x ++ y = _ := by simpa using same
      obtain ⟨ha', _, apart⟩ := cutBefore a ha x rfl
      exact ⟨ha', by simp [hx], by simpa [hx] using apart⟩

end List

namespace PolishCalc.Token

open Text (isBlank)

/-- No token is cut in two between the texts: one of them is empty, or the characters on both sides
do not belong to one token. -/
def MayCut (s t : String) : Prop :=
  s = "" ∨ t = "" ∨ (∃ c ∈ s.toList.getLast?, isBlank c = true ∨ c = '(') ∨
    ∃ d ∈ t.toList.head?, isBlank d = true ∨ d = ')'

instance (s t : String) : Decidable (MayCut s t) :=
  decidable_of_iff (s = "" ∨ t = "" ∨ s.toList.getLast?.any (fun c => isBlank c || c == '(') ∨
    t.toList.head?.any (fun d => isBlank d || d == ')')) (by simp [MayCut, Option.any_eq_true])

theorem apart_iff_mayCut {s t : String} : Apart s.toList t.toList ↔ MayCut s t := by
  rw [Apart, MayCut, ← String.toList_eq_nil_iff, ← String.toList_eq_nil_iff]
  rcases eq_or_ne s.toList [] with hs | hs
  · simp [hs]
  rcases eq_or_ne t.toList [] with ht | ht
  · simp [ht]
  obtain ⟨c, hc⟩ := Option.ne_none_iff_exists'.mp (mt List.getLast?_eq_none_iff.mp hs)
  obtain ⟨d, hd⟩ := Option.ne_none_iff_exists'.mp (mt List.head?_eq_none_iff.mp ht)
  simp [hs, ht, hc, hd, glued_eq_false_iff, or_assoc]

/-! ## The piece across a cut -/

theorem exists_splitBy_eq_concat {cs : List Char} {c : Char} (hc : cs.getLast? = some c) :
    ∃ front x, cs.splitBy glued = front ++ [x] ∧ c ∈ x := by
  have full : cs.splitBy glued ≠ [] :=
    List.splitBy_ne_nil.mpr (List.ne_nil_of_mem (List.mem_of_getLast? hc))
  obtain ⟨front, x, eq⟩ := (List.eq_nil_or_concat' _).resolve_left full
  have hx : x ≠ [] := List.ne_nil_of_mem_splitBy (eq ▸ List.mem_append_right _ List.mem_cons_self)
  refine ⟨front, x, eq, List.mem_of_getLast? ?_⟩
  rw [← List.flatten_splitBy glued cs, eq, List.flatten_append, List.flatten_singleton,
    List.getLast?_append_of_ne_nil _ hx] at hc
  exact hc

theorem exists_splitBy_eq_cons {ds : List Char} {d : Char} (hd : ds.head? = some d) :
    ∃ y back, ds.splitBy glued = y :: back ∧ d ∈ y := by
  have full : ds.splitBy glued ≠ [] :=
    List.splitBy_ne_nil.mpr (List.ne_nil_of_mem (List.mem_of_head? hd))
  obtain ⟨y, back, eq⟩ := List.exists_cons_of_ne_nil full
  have hy : y ≠ [] := List.ne_nil_of_mem_splitBy (eq ▸ List.mem_cons_self)
  refine ⟨y, back, eq, List.mem_of_head? ?_⟩
  rw [← List.flatten_splitBy glued ds, eq, List.flatten_cons,
    List.head?_append_of_ne_nil _ hy] at hd
  exact hd

theorem not_all_isBlank {cs : List Char} {c : Char} (hc : c ∈ cs) (solid : isBlank c = false) :
    (!cs.all isBlank) = true := by
  simpa using ⟨c, hc, solid⟩

/-- If a token reaches across the cut, the last piece before it and the first one after it are one
piece of the whole. -/
theorem pieces_append_of_not_apart {cs ds : List Char} (h : ¬ Apart cs ds) :
    ∃ front x y back, pieces cs = front ++ [x] ∧ pieces ds = y :: back ∧
      pieces (cs ++ ds) = front ++ (x ++ y) :: back := by
  simp only [Apart, not_forall, Bool.not_eq_false] at h
  obtain ⟨c, hc, d, hd, glue⟩ := h
  obtain ⟨⟨solid, -⟩, solid', -⟩ := glued_eq_true_iff.mp glue
  obtain ⟨front, x, runs, mem⟩ := exists_splitBy_eq_concat hc
  obtain ⟨y, back, runs', mem'⟩ := exists_splitBy_eq_cons hd
  have joint : ∀ a ∈ cs.getLast?, ∀ b ∈ ds.head?, glued a b = true := by
    rw [hc, hd]
    simpa using glue
  have both : c ∈ x ++ y := List.mem_append_left _ mem
  simp only [pieces, runs, runs', List.splitBy_append_of_rel runs runs' joint, List.filter_append,
    List.filter_cons, List.filter_nil, not_all_isBlank mem solid, not_all_isBlank mem' solid',
    not_all_isBlank both solid, ↓reduceIte]
  exact ⟨_, x, y, _, rfl, rfl, rfl⟩

/-! ## The token across a cut -/

theorem ofText_append {s t : String} (hs : s ≠ "") (ht : t ≠ "") :
    ofText (s ++ t) = .atom (s ++ t) := by
  have long : 2 ≤ (s ++ t).length := by
    have := String.length_eq_zero_iff.not.mpr hs
    have := String.length_eq_zero_iff.not.mpr ht
    rw [String.length_append]
    omega
  have ne_of_short {short : String} (h : short.length < 2) : s ++ t ≠ short := by
    rintro rfl
    omega
  exact ofText_eq_atom_iff.mpr ⟨rfl, ne_of_short (by decide), ne_of_short (by decide)⟩

theorem tokenize_append_of_not_mayCut {s t : String} (h : ¬ MayCut s t) :
    ∃ front x y back, tokenize s = front ++ [x] ∧ tokenize t = y :: back ∧
      tokenize (s ++ t) = front ++ .atom (x.text ++ y.text) :: back := by
  rw [← apart_iff_mayCut] at h
  obtain ⟨front, x, y, back, hs, ht, eq⟩ := pieces_append_of_not_apart h
  have hx : x ≠ [] := ne_nil_of_mem_pieces (hs ▸ List.mem_append_right _ List.mem_cons_self)
  have hy : y ≠ [] := ne_nil_of_mem_pieces (ht ▸ List.mem_cons_self)
  have one : ofText (String.ofList (x ++ y)) = .atom (String.ofList x ++ String.ofList y) := by
    rw [String.ofList_append]
    exact ofText_append (by simpa using hx) (by simpa using hy)
  refine ⟨front.map (ofText <| String.ofList ·), ofText (String.ofList x),
    ofText (String.ofList y), back.map (ofText <| String.ofList ·), ?_, ?_, ?_⟩
  · rw [tokenize, hs, List.map_append, List.map_singleton]
  · rw [tokenize, ht, List.map_cons]
  · rw [tokenize, String.toList_append, eq, List.map_append, List.map_cons, one, text_ofText,
      text_ofText]

/-- A text may be cut exactly where its tokens are those of the two halves. Everywhere else the last
token before the cut and the first one after it are one atom, so there is one token fewer. -/
theorem tokenize_append_iff (s t : String) :
    (tokenize (s ++ t) = tokenize s ++ tokenize t ↔ MayCut s t) ∧
    (¬ MayCut s t → ∃ front x y back, tokenize s = front ++ [x] ∧ tokenize t = y :: back ∧
      tokenize (s ++ t) = front ++ .atom (x.text ++ y.text) :: back ∧
      (tokenize (s ++ t)).length + 1 = (tokenize s).length + (tokenize t).length) := by
  have fewer (h : ¬ MayCut s t) :
      (tokenize (s ++ t)).length + 1 = (tokenize s).length + (tokenize t).length := by
    obtain ⟨front, x, y, back, hs, ht, merged⟩ := tokenize_append_of_not_mayCut h
    simp only [hs, ht, merged, List.length_append, List.length_cons, List.length_nil]
    omega
  refine ⟨⟨fun same => ?_, fun h => tokenize_append (apart_iff_mayCut.mpr h)⟩, fun h => ?_⟩
  · by_contra h
    have := fewer h
    rw [same, List.length_append] at this
    omega
  · obtain ⟨front, x, y, back, hs, ht, merged⟩ := tokenize_append_of_not_mayCut h
    exact ⟨front, x, y, back, hs, ht, merged, fewer h⟩

/-- Between a closing and an opening parenthesis a text may not be cut, and the atom there is made
of both. -/
theorem tokenize_append_iff_parens :
    let s := "(* 2)"
    let t := "(+ 1 x)"
    ¬ MayCut s t ∧ tokenize (s ++ t) ≠ tokenize s ++ tokenize t ∧
      ∃ front x y back, tokenize s = front ++ [x] ∧ tokenize t = y :: back ∧
        tokenize (s ++ t) = front ++ .atom (x.text ++ y.text) :: back := by
  intro s t
  have joined : ¬ MayCut s t := by decide
  obtain ⟨cut, merged⟩ := tokenize_append_iff s t
  obtain ⟨front, x, y, back, hs, ht, eq, -⟩ := merged joined
  exact ⟨joined, fun same => joined (cut.mp same), front, x, y, back, hs, ht, eq⟩

end PolishCalc.Token
