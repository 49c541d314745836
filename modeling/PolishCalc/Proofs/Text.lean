import PolishCalc.Text

/-!
# The lines of a text

Every text is made of ended lines, each with a line feed after it, and of what
follows the last line feed (`exists_ended`). Its lines are the ended ones, each
without a carriage return at its end, and what follows them, unless that is
empty (`splitLines_ended`). So a text may be split in two after any line feed
(`lines_append`).

A text whose only blank characters are spaces stays so when more such texts are
appended, and it is a single line (`SpacesOnly.lines_append_newline`).
-/

namespace PolishCalc.Text

/-- A line without the carriage return that a line feed after it would take with it. -/
def dropReturn (line : List Char) : List Char :=
  if line.getLast? = some '\r' then line.dropLast else line

theorem dropReturn_cons {c : Char} {line : List Char} (h : ¬ (c = '\r' ∧ line = [])) :
    dropReturn (c :: line) = c :: dropReturn line := by
  cases line with
  | nil =>
    have other : c ≠ '\r' := fun same => h ⟨same, rfl⟩
    simp [dropReturn, other]
  | cons d line =>
    rw [dropReturn, dropReturn, List.getLast?_cons_cons, List.dropLast_cons_cons]
    split <;> rfl

/-- What follows the last line feed, as a line unless it is empty. -/
def unended (cs : List Char) : List (List Char) :=
  if cs = [] then [] else [cs]

/-- Ended lines with their line feeds. -/
def withEnds (ended : List (List Char)) : List Char :=
  ended.flatMap (· ++ ['\n'])

/-! ## One line -/

theorem splitLines_cons {c : Char} {cs : List Char} (notEnd : c ≠ '\n')
    (noReturn : c = '\r' → cs.head? ≠ some '\n') :
    splitLines (c :: cs) =
      match splitLines cs with
      | [] => [[c]]
      | line :: more => (c :: line) :: more := by
  refine splitLines.eq_4 c cs notEnd ?_
  rintro rest rfl rfl
  exact noReturn rfl rfl

theorem splitLines_of_not_mem {cs : List Char} (h : '\n' ∉ cs) : splitLines cs = unended cs := by
  induction cs with
  | nil => rfl
  | cons c cs ih =>
    have notEnd : c ≠ '\n' := (List.ne_of_not_mem_cons h).symm
    have later := List.not_mem_of_not_mem_cons h
    have noReturn : c = '\r' → cs.head? ≠ some '\n' := fun _ starts =>
      later (List.mem_of_mem_head? starts)
    rw [splitLines_cons notEnd noReturn, ih later]
    cases cs <;> rfl

theorem splitLines_append_newline {line : List Char} (h : '\n' ∉ line) (rest : List Char) :
    splitLines (line ++ '\n' :: rest) = dropReturn line :: splitLines rest := by
  induction line with
  | nil => simp [splitLines, dropReturn]
  | cons c line ih =>
    have notEnd : c ≠ '\n' := (List.ne_of_not_mem_cons h).symm
    have later := List.not_mem_of_not_mem_cons h
    by_cases alone : c = '\r' ∧ line = []
    · obtain ⟨rfl, rfl⟩ := alone
      simp [splitLines, dropReturn]
    · have noReturn : c = '\r' → (line ++ '\n' :: rest).head? ≠ some '\n' := by
        rintro rfl starts
        cases line with
        | nil => exact alone ⟨rfl, rfl⟩
        | cons d line => exact later (by simpa using Or.inl starts.symm)
      rw [List.cons_append, splitLines_cons notEnd noReturn, ih later,
        dropReturn_cons alone]

/-! ## All lines -/

theorem exists_ended (cs : List Char) : ∃ ended last, (∀ line ∈ ended, '\n' ∉ line) ∧
    '\n' ∉ last ∧ cs = withEnds ended ++ last := by
  induction cs with
  | nil => exact ⟨[], [], nofun, List.not_mem_nil, rfl⟩
  | cons c cs ih =>
    obtain ⟨ended, last, noneEnded, noneLast, rfl⟩ := ih
    by_cases newline : c = '\n'
    · subst newline
      exact ⟨[] :: ended, last, by simpa using noneEnded, noneLast, rfl⟩
    · cases ended with
      | nil => exact ⟨[], c :: last, nofun, by simp [Ne.symm newline, noneLast], rfl⟩
      | cons line ended =>
        obtain ⟨noneFirst, noneEnded⟩ := List.forall_mem_cons.mp noneEnded
        exact ⟨(c :: line) :: ended, last,
          List.forall_mem_cons.mpr ⟨by simp [Ne.symm newline, noneFirst], noneEnded⟩, noneLast, rfl⟩

theorem splitLines_withEnds_append {ended : List (List Char)} (none : ∀ line ∈ ended, '\n' ∉ line)
    (cs : List Char) :
    splitLines (withEnds ended ++ cs) = ended.map dropReturn ++ splitLines cs := by
  induction ended with
  | nil => rfl
  | cons line ended ih =>
    obtain ⟨noneHere, noneLater⟩ := List.forall_mem_cons.mp none
    have first : withEnds (line :: ended) ++ cs = line ++ '\n' :: (withEnds ended ++ cs) := by
      simp [withEnds]
    rw [first, splitLines_append_newline noneHere, ih noneLater]
    rfl

theorem splitLines_ended {ended : List (List Char)} {last : List Char}
    (noneEnded : ∀ line ∈ ended, '\n' ∉ line) (noneLast : '\n' ∉ last) :
    splitLines (withEnds ended ++ last) = ended.map dropReturn ++ unended last := by
  rw [splitLines_withEnds_append noneEnded, splitLines_of_not_mem noneLast]

/-- A line feed ends what followed the last one. -/
theorem splitLines_ended_append_newline {ended : List (List Char)} {last : List Char}
    (noneEnded : ∀ line ∈ ended, '\n' ∉ line) (noneLast : '\n' ∉ last) (rest : List Char) :
    splitLines (withEnds ended ++ last ++ '\n' :: rest) =
      (ended ++ [last]).map dropReturn ++ splitLines rest := by
  rw [List.append_assoc, splitLines_withEnds_append noneEnded, splitLines_append_newline noneLast]
  simp

theorem splitLines_append (cs ds : List Char) :
    splitLines (cs ++ '\n' :: ds) = splitLines (cs ++ ['\n']) ++ splitLines ds := by
  obtain ⟨ended, last, noneEnded, noneLast, rfl⟩ := exists_ended cs
  rw [splitLines_ended_append_newline noneEnded noneLast,
    splitLines_ended_append_newline noneEnded noneLast, splitLines, List.append_nil]

theorem lines_append (a b : String) : lines (a ++ "\n" ++ b) = lines (a ++ "\n") ++ lines b := by
  have whole : (a ++ "\n" ++ b).toList = a.toList ++ '\n' :: b.toList := by simp
  have front : (a ++ "\n").toList = a.toList ++ ['\n'] := by simp
  rw [lines, lines, lines, whole, front, splitLines_append, List.map_append]

/-! ## Texts with no blanks but spaces -/

def SpacesOnly (s : String) : Prop :=
  ∀ c ∈ s.toList, isBlank c = true → c = ' '

instance (s : String) : Decidable (SpacesOnly s) :=
  List.decidableBAll (fun c => isBlank c = true → c = ' ') s.toList

@[simp] theorem spacesOnly_append {s t : String} :
    SpacesOnly (s ++ t) ↔ SpacesOnly s ∧ SpacesOnly t := by
  simp only [SpacesOnly, String.toList_append, List.forall_mem_append]

theorem spacesOnly_of_solid {s : String} (h : ∀ c ∈ s.toList, isBlank c = false) :
    SpacesOnly s := by
  intro c mem blank
  rw [h c mem] at blank
  cases blank

theorem isBlank_eq_false_of_isDigit {c : Char} (h : c.isDigit = true) : isBlank c = false := by
  have bounds : 48 ≤ c.toNat ∧ c.toNat ≤ 57 := Char.isDigit_iff_toNat.mp h
  simp only [isBlank, blankRanges, List.any_cons, List.any_nil, Bool.or_false,
    Bool.or_eq_false_iff, Bool.and_eq_false_imp, decide_eq_true_eq, decide_eq_false_iff_not]
  omega

theorem spacesOnly_toString (n : Nat) : SpacesOnly (toString n) := by
  apply spacesOnly_of_solid
  intro c mem
  have digit : c ∈ Nat.toDigits 10 n := by simpa using mem
  exact isBlank_eq_false_of_isDigit (Nat.isDigit_of_mem_toDigits (by decide) (by decide) digit)

namespace SpacesOnly

variable {s : String} {c : Char}

theorem not_mem (h : SpacesOnly s) (blank : isBlank c = true) (other : c ≠ ' ') : c ∉ s.toList :=
  fun mem => other (h c mem blank)

theorem lines_append_newline (h : SpacesOnly s) : lines (s ++ "\n") = [s] := by
  have noNewline : '\n' ∉ s.toList := h.not_mem (by decide) (by decide)
  have noReturn : s.toList.getLast? ≠ some '\r' := fun last =>
    h.not_mem (by decide) (by decide) (List.mem_of_getLast? last)
  rw [lines, String.toList_append]
  show (splitLines (s.toList ++ '\n' :: [])).map String.ofList = [s]
  rw [splitLines_append_newline noNewline, dropReturn, if_neg noReturn]
  simp [splitLines]

end SpacesOnly

end PolishCalc.Text
