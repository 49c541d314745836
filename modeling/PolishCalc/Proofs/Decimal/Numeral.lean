import Mathlib.Algebra.Order.Field.Rat
import Mathlib.Data.List.Induction
import Mathlib.Tactic.FieldSimp
import Mathlib.Tactic.Ring
import PolishCalc.Decimal

/-!
# The grammar of numerals

A `Numeral` is a decimal number in its parts, with its text, its sign and its
exact magnitude. The texts of numerals are the numeric literals, and a literal
spells the decimal that has the sign and the magnitude of the numeral
(`Decimal.ofString?_eq_some_iff`, `Numeral.magnitude_decimal`).
-/

namespace PolishCalc

open Decimal

/-- The exact value of a decimal without its sign. -/
def Decimal.magnitude (d : Decimal) : ℚ :=
  d.coefficient * 10 ^ d.exponent

/-! ## Numerals -/

inductive Sign where
  | absent
  | plus
  | minus
  deriving DecidableEq, Repr

def Sign.chars : Sign → List Char
  | absent => []
  | plus => ['+']
  | minus => ['-']

def Sign.negative (sign : Sign) : Bool :=
  sign = minus

structure Exponent where
  letter : Char
  sign : Sign
  digits : List Char
  isLetter : letter = 'e' ∨ letter = 'E'
  isDigit : ∀ c ∈ digits, c.isDigit = true
  ne_nil : digits ≠ []

def Exponent.chars (exponent : Exponent) : List Char :=
  exponent.letter :: (exponent.sign.chars ++ exponent.digits)

def Exponent.value (exponent : Exponent) : Int :=
  if exponent.sign.negative then -(ofDigits exponent.digits : Int) else ofDigits exponent.digits

structure Numeral where
  sign : Sign
  whole : List Char
  /-- The digits after the point, if there is a point. -/
  fraction : Option (List Char)
  exponent : Option Exponent
  isDigit_whole : ∀ c ∈ whole, c.isDigit = true
  isDigit_fraction : ∀ c ∈ fraction.getD [], c.isDigit = true
  hasDigit : whole ≠ [] ∨ fraction.getD [] ≠ []

namespace Numeral

def chars (n : Numeral) : List Char :=
  n.sign.chars ++ (n.whole ++ (n.fraction.elim [] ('.' :: ·) ++ n.exponent.elim [] Exponent.chars))

def text (n : Numeral) : String :=
  String.ofList n.chars

def negative (n : Numeral) : Bool :=
  n.sign.negative

/-- The exact value without the sign: the whole part and the fraction, times a power of ten. -/
def magnitude (n : Numeral) : ℚ :=
  (ofDigits n.whole + ofDigits (n.fraction.getD []) / 10 ^ (n.fraction.getD []).length) *
    10 ^ n.exponent.elim 0 Exponent.value

/-- The decimal that counts the last digit of the fraction. -/
def decimal (n : Numeral) : Decimal :=
  ⟨n.negative, ofDigits (n.whole ++ n.fraction.getD []),
    n.exponent.elim 0 Exponent.value - (n.fraction.getD []).length⟩

end Numeral

/-! ## The exact value -/

theorem Decimal.ofDigits_append (front back : List Char) :
    ofDigits (front ++ back) = ofDigits front * 10 ^ back.length + ofDigits back := by
  induction back using List.reverseRecOn with
  | nil => simp
  | append_singleton back c ih =>
    rw [← List.append_assoc, ofDigits_concat, ofDigits_concat, ih, List.length_append,
      List.length_singleton, Nat.pow_succ]
    ring

theorem Numeral.magnitude_decimal (n : Numeral) : n.decimal.magnitude = n.magnitude := by
  unfold Decimal.magnitude decimal magnitude
  dsimp only
  rw [ofDigits_append, zpow_sub₀ (by norm_num), zpow_natCast]
  push_cast
  field_simp

/-! ## Parts of a literal -/

namespace Decimal

theorem exists_sign (cs : List Char) :
    ∃ sign : Sign, sign.chars ++ (splitSign cs).2 = cs ∧ sign.negative = (splitSign cs).1 := by
  unfold splitSign
  split
  · exact ⟨.plus, rfl, rfl⟩
  · exact ⟨.minus, rfl, rfl⟩
  · exact ⟨.absent, rfl, rfl⟩

theorem splitSign_append (sign : Sign) {rest : List Char}
    (other : ∀ c ∈ rest.head?, c ≠ '+' ∧ c ≠ '-') :
    splitSign (sign.chars ++ rest) = (sign.negative, rest) := by
  cases sign with
  | absent =>
    show splitSign rest = (false, rest)
    unfold splitSign
    split
    · exact absurd rfl (other _ rfl).1
    · exact absurd rfl (other _ rfl).2
    · rfl
  | plus => rfl
  | minus => rfl

theorem splitDigits_append {digits rest : List Char} (isDigit : ∀ c ∈ digits, c.isDigit = true)
    (other : ∀ c ∈ rest.head?, c.isDigit = false) :
    splitDigits (digits ++ rest) = (digits, rest) := by
  have stops : rest.takeWhile Char.isDigit = [] ∧ rest.dropWhile Char.isDigit = rest := by
    cases rest with
    | nil => exact ⟨rfl, rfl⟩
    | cons c rest =>
      have notDigit : ¬c.isDigit = true := by simp [other c rfl]
      exact ⟨List.takeWhile_cons_of_neg notDigit, List.dropWhile_cons_of_neg notDigit⟩
  rw [splitDigits, List.takeWhile_append_of_pos isDigit, List.dropWhile_append_of_pos isDigit,
    stops.1, stops.2, List.append_nil]

theorem exists_fraction (cs : List Char) :
    ∃ fraction : Option (List Char), fraction.elim [] ('.' :: ·) ++ (splitFraction cs).2 = cs ∧
      fraction.getD [] = (splitFraction cs).1 := by
  unfold splitFraction
  split
  next rest => exact ⟨some (splitDigits rest).1, congrArg _ (append_splitDigits rest), rfl⟩
  next => exact ⟨none, rfl, rfl⟩

theorem isDigit_of_mem_splitFraction {cs : List Char} {c : Char} (h : c ∈ (splitFraction cs).1) :
    c.isDigit = true := by
  unfold splitFraction at h
  split at h
  · exact isDigit_of_mem_splitDigits h
  · cases h

theorem splitFraction_append {fraction : Option (List Char)} {rest : List Char}
    (isDigit : ∀ c ∈ fraction.getD [], c.isDigit = true)
    (other : ∀ c ∈ rest.head?, c.isDigit = false ∧ c ≠ '.') :
    splitFraction (fraction.elim [] ('.' :: ·) ++ rest) = (fraction.getD [], rest) := by
  cases fraction with
  | none =>
    show splitFraction rest = ([], rest)
    unfold splitFraction
    split
    · exact absurd rfl (other _ rfl).2
    · rfl
  | some digits => exact splitDigits_append isDigit fun c mem => (other c mem).1

/-- A digit is no sign and no point. -/
theorem ne_of_isDigit {c : Char} (h : c.isDigit = true) : c ≠ '+' ∧ c ≠ '-' ∧ c ≠ '.' := by
  refine ⟨?_, ?_, ?_⟩ <;> rintro rfl <;> exact absurd h (by decide)

theorem exponentOf?_cons (c : Char) (rest : List Char) :
    exponentOf? (c :: rest) =
      if (c = 'e' ∨ c = 'E') ∧ (splitSign rest).2 ≠ [] ∧ (splitSign rest).2.all Char.isDigit then
        some (if (splitSign rest).1 then -(ofDigits (splitSign rest).2 : Int)
          else ofDigits (splitSign rest).2)
      else none :=
  rfl

theorem exponentOf?_chars (exponent : Exponent) :
    exponentOf? exponent.chars = some exponent.value := by
  have split : splitSign (exponent.sign.chars ++ exponent.digits) =
      (exponent.sign.negative, exponent.digits) := by
    refine splitSign_append _ fun c mem => ?_
    have digit := ne_of_isDigit (exponent.isDigit c (List.mem_of_mem_head? mem))
    exact ⟨digit.1, digit.2.1⟩
  rw [Exponent.chars, exponentOf?_cons, split]
  exact if_pos ⟨exponent.isLetter, exponent.ne_nil, List.all_eq_true.mpr exponent.isDigit⟩

theorem exponentOf?_eq_some_iff {cs : List Char} {value : Int} :
    exponentOf? cs = some value ↔ ∃ exponent : Option Exponent,
      exponent.elim [] Exponent.chars = cs ∧ exponent.elim 0 Exponent.value = value := by
  constructor
  · intro spelled
    cases cs with
    | nil => exact ⟨none, rfl, Option.some.inj spelled⟩
    | cons c rest =>
      obtain ⟨sign, chars, negative⟩ := exists_sign rest
      rw [exponentOf?_cons] at spelled
      split at spelled
      next valid =>
        obtain ⟨isLetter, ne_nil, isDigit⟩ := valid
        refine ⟨some ⟨c, sign, _, isLetter, List.all_eq_true.mp isDigit, ne_nil⟩,
          congrArg _ chars, ?_⟩
        rw [← negative] at spelled
        exact Option.some.inj spelled
      next => cases spelled
  · rintro ⟨exponent, rfl, rfl⟩
    cases exponent with
    | none => rfl
    | some exponent => exact exponentOf?_chars exponent

/-! ## Whole literals -/

theorem ofChars?_chars (n : Numeral) : ofChars? n.chars = some n.decimal := by
  -- each part ends where the next one, if any, starts with a character that it cannot have
  have letter : ∀ c ∈ (n.exponent.elim [] Exponent.chars).head?, c = 'e' ∨ c = 'E' := by
    cases n.exponent with
    | none => nofun
    | some exponent => exact fun c mem => Option.some.inj mem ▸ exponent.isLetter
  have point : ∀ c ∈ (n.fraction.elim [] ('.' :: ·) ++ n.exponent.elim [] Exponent.chars).head?,
      c = '.' ∨ c = 'e' ∨ c = 'E' := by
    cases n.fraction with
    | none => exact fun c mem => .inr (letter c mem)
    | some digits => exact fun c mem => .inl (Option.some.inj mem).symm
  have first : ∀ c ∈ (n.whole ++ (n.fraction.elim [] ('.' :: ·) ++
      n.exponent.elim [] Exponent.chars)).head?,
      c.isDigit = true ∨ c = '.' ∨ c = 'e' ∨ c = 'E' := by
    cases whole : n.whole with
    | nil => exact fun c mem => .inr (point c mem)
    | cons digit digits =>
      exact fun c mem => .inl (Option.some.inj mem ▸ n.isDigit_whole digit (by simp [whole]))
  unfold ofChars? Numeral.chars
  dsimp only
  rw [splitSign_append n.sign, splitDigits_append n.isDigit_whole,
    splitFraction_append n.isDigit_fraction]
  · rw [if_neg (not_and_or.mpr n.hasDigit), exponentOf?_eq_some_iff.mpr ⟨n.exponent, rfl, rfl⟩]
    rfl
  · intro c mem
    rcases letter c mem with rfl | rfl <;> decide
  · intro c mem
    rcases point c mem with rfl | rfl | rfl <;> decide
  · intro c mem
    rcases first c mem with digit | rfl | rfl | rfl
    · exact ⟨(ne_of_isDigit digit).1, (ne_of_isDigit digit).2.1⟩
    · decide
    · decide
    · decide

theorem exists_numeral {cs : List Char} {d : Decimal} (h : ofChars? cs = some d) :
    ∃ n : Numeral, n.chars = cs ∧ n.decimal = d := by
  unfold ofChars? at h
  dsimp only at h
  split at h
  · cases h
  next hasDigit =>
    obtain ⟨exponent, spelled, rfl⟩ := Option.map_eq_some_iff.mp h
    obtain ⟨e, exponentChars, exponentValue⟩ := exponentOf?_eq_some_iff.mp spelled
    obtain ⟨sign, signChars, negative⟩ := exists_sign cs
    obtain ⟨fraction, fractionChars, fractionDigits⟩ :=
      exists_fraction (splitDigits (splitSign cs).2).2
    refine ⟨⟨sign, (splitDigits (splitSign cs).2).1, fraction, e,
      fun _ => isDigit_of_mem_splitDigits, ?_, ?_⟩, ?_, ?_⟩
    · rw [fractionDigits]
      exact fun _ => isDigit_of_mem_splitFraction
    · rw [fractionDigits]
      exact not_and_or.mp hasDigit
    · unfold Numeral.chars
      dsimp only
      rw [exponentChars, fractionChars, append_splitDigits, signChars]
    · unfold Numeral.decimal Numeral.negative
      dsimp only
      rw [exponentValue, fractionDigits, negative]

theorem ofString?_eq_some_iff {text : String} {d : Decimal} :
    ofString? text = some d ↔ ∃ n : Numeral, n.text = text ∧ n.decimal = d := by
  constructor
  · intro spelled
    obtain ⟨n, chars, decimal⟩ := exists_numeral spelled
    exact ⟨n, by rw [Numeral.text, chars, String.ofList_toList], decimal⟩
  · rintro ⟨n, rfl, rfl⟩
    rw [ofString?, Numeral.text, String.toList_ofList, ofChars?_chars]

theorem ofString?_eq_none_iff {text : String} :
    ofString? text = none ↔ ¬∃ n : Numeral, n.text = text := by
  rw [Option.eq_none_iff_forall_ne_some]
  constructor
  · rintro none ⟨n, spelled⟩
    exact none _ (ofString?_eq_some_iff.mpr ⟨n, spelled, rfl⟩)
  · intro noNumeral d found
    obtain ⟨n, spelled, -⟩ := ofString?_eq_some_iff.mp found
    exact noNumeral ⟨n, spelled⟩

end Decimal

end PolishCalc
