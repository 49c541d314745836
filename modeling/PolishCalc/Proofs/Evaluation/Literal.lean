import PolishCalc.Expr.Evaluation
import PolishCalc.Proofs.Binary32.Decimal
import PolishCalc.Proofs.Decimal.Numeral

/-!
# The values of literals

The texts of numerals are the leaves that have a value, and it is the number
nearest to the numeral. A parser of numbers also reads the names of infinity
and of not-a-number, in letters of either case (`Binary32.parse?`). They have
no digits, and every numeral has one, so reading with that parser and then
asking for a digit comes to the same (`Expr.leafValue_eq_parse?`).
-/

namespace PolishCalc

open Decimal

/-! ## Names of numbers -/

namespace Binary32

/-- The number with a name: an infinity, or not-a-number, which has no sign. -/
def named? (negative : Bool) (name : List Char) : Option Binary32 :=
  let lower := name.map Char.toLower
  if lower = "inf".toList ∨ lower = "infinity".toList then some (infinite negative)
  else if lower = "nan".toList then some nan
  else none

/-- The number that a text spells or names, with an optional sign. -/
def parse? (text : String) : Option Binary32 :=
  match ofString? text with
  | some decimal => some (ofDecimal decimal)
  | none => named? (splitSign text.toList).1 (splitSign text.toList).2

theorem toLower_of_isDigit {c : Char} (h : c.isDigit = true) : c.toLower = c := by
  have bounds : 48 ≤ c.toNat ∧ c.toNat ≤ 57 := Char.isDigit_iff_toNat.mp h
  unfold Char.toLower
  rw [dif_neg]
  rintro ⟨above, -⟩
  have : 65 ≤ c.toNat := above
  omega

theorem any_isDigit_of_named? {negative : Bool} {name : List Char} {v : Binary32}
    (h : named? negative name = some v) : name.any Char.isDigit = false := by
  have lower : name.map Char.toLower ∈ ["inf".toList, "infinity".toList, "nan".toList] := by
    unfold named? at h
    dsimp only at h
    split at h
    next infinity => rcases infinity with eq | eq <;> simp [eq]
    next =>
      split at h
      next eq => simp [eq]
      next => cases h
  have letters : ∀ word ∈ ["inf".toList, "infinity".toList, "nan".toList],
      word.any Char.isDigit = false := by
    decide
  rw [List.any_eq_false]
  intro c mem digit
  have plain := List.any_eq_false.mp (letters _ lower) _ (List.mem_map_of_mem mem)
  rw [toLower_of_isDigit digit] at plain
  exact plain digit

theorem any_isDigit_of_signed {cs : List Char} {v : Binary32}
    (h : named? (splitSign cs).1 (splitSign cs).2 = some v) : cs.any Char.isDigit = false := by
  obtain ⟨sign, chars, -⟩ := exists_sign cs
  have plain : sign.chars.any Char.isDigit = false := by cases sign <;> decide
  rw [← chars, List.any_append, plain, any_isDigit_of_named? h, Bool.or_false]

end Binary32

/-! ## Numerals -/

open Binary32 (IsNearest overflow)

theorem Numeral.isNearest_ofDecimal (n : Numeral) :
    IsNearest n.negative n.magnitude (.ofDecimal n.decimal) :=
  n.magnitude_decimal ▸ Binary32.isNearest_ofDecimal n.decimal

theorem Numeral.any_isDigit_chars (n : Numeral) : n.chars.any Char.isDigit = true := by
  rw [List.any_eq_true]
  unfold Numeral.chars
  rcases n.hasDigit with whole | fraction
  · obtain ⟨c, mem⟩ := List.exists_mem_of_ne_nil _ whole
    exact ⟨c, by simp [mem], n.isDigit_whole c mem⟩
  · obtain ⟨c, mem⟩ := List.exists_mem_of_ne_nil _ fraction
    have afterPoint : c ∈ n.fraction.elim [] ('.' :: ·) := by
      cases point : n.fraction with
      | none =>
        rw [point] at mem
        cases mem
      | some digits =>
        rw [point] at mem
        exact List.mem_cons_of_mem _ mem
    exact ⟨c, by simp [afterPoint], n.isDigit_fraction c mem⟩

/-! ## Leaves -/

namespace Expr

theorem leafValue_text (n : Numeral) : leafValue n.text = .ok (.ofDecimal n.decimal) := by
  rw [leafValue, ofString?_eq_some_iff.mpr ⟨n, rfl, rfl⟩]

theorem leafValue_of_no_numeral {text : String} (h : ¬∃ n : Numeral, n.text = text) :
    leafValue text = .error (.invalidNumber text) := by
  rw [leafValue, ofString?_eq_none_iff.mpr h]

theorem leafValue_text_eq_ok_iff {n : Numeral} {v : Binary32} :
    leafValue n.text = .ok v ↔ IsNearest n.negative n.magnitude v := by
  rw [leafValue_text, Except.ok.injEq]
  constructor
  · rintro rfl
    exact n.isNearest_ofDecimal
  · exact n.isNearest_ofDecimal.unique

/-- Asking for a digit removes all names and nothing else. -/
theorem leafValue_eq_parse? (text : String) :
    leafValue text =
      match (Binary32.parse? text).filter fun _ => text.toList.any Char.isDigit with
      | some v => .ok v
      | none => .error (.invalidNumber text) := by
  unfold leafValue Binary32.parse?
  cases found : ofString? text with
  | some d =>
    obtain ⟨n, rfl, -⟩ := ofString?_eq_some_iff.mp found
    dsimp only
    rw [Numeral.text, String.toList_ofList, n.any_isDigit_chars]
    rfl
  | none =>
    dsimp only
    cases named : Binary32.named? (splitSign text.toList).1 (splitSign text.toList).2 with
    | none => rfl
    | some v =>
      rw [Binary32.any_isDigit_of_signed named]
      rfl

/-- The texts of numerals, and no others, have a value. It is the number nearest to the numeral,
with its sign, and infinite only from `overflow` on. -/
theorem leafValue_nearest_numeral (text : String) :
    ((∃ v, leafValue text = .ok v) ↔ ∃ n : Numeral, n.text = text) ∧
    ((¬∃ n : Numeral, n.text = text) → leafValue text =
      .error { kind := .invalidNumber, message := "invalid number " ++ text, context := none }) ∧
    (∀ {n : Numeral} {v : Binary32}, n.text = text →
      (leafValue text = .ok v ↔ IsNearest n.negative n.magnitude v)) ∧
    (∀ {n : Numeral} {v : Binary32}, n.text = text → leafValue text = .ok v →
      (v = .infinite n.negative ∧ overflow ≤ n.magnitude) ∨
        ∃ magnitude, v = .finite n.negative magnitude ∧ n.magnitude < overflow) ∧
    leafValue text =
      match (Binary32.parse? text).filter fun _ => text.toList.any Char.isDigit with
      | some v => .ok v
      | none => .error (.invalidNumber text) := by
  refine ⟨⟨?_, ?_⟩, leafValue_of_no_numeral, ?_, ?_, leafValue_eq_parse? text⟩
  · rintro ⟨v, value⟩
    by_contra noNumeral
    rw [leafValue_of_no_numeral noNumeral] at value
    cases value
  · rintro ⟨n, rfl⟩
    exact ⟨_, leafValue_text n⟩
  · rintro n v rfl
    exact leafValue_text_eq_ok_iff
  · rintro n v rfl value
    exact (leafValue_text_eq_ok_iff.mp value).eq_infinite_or_finite

/-- A numeral without a whole part that overflows, and a name that is no numeral. -/
theorem leafValue_nearest_numeral_overflow :
    let n : Numeral :=
      { sign := .minus, whole := [], fraction := some ['5'],
        exponent := some ⟨'E', .plus, ['3', '9'], .inr rfl, List.all_eq_true.mp rfl, nofun⟩,
        isDigit_whole := List.forall_mem_nil _, isDigit_fraction := List.all_eq_true.mp rfl,
        hasDigit := .inr nofun }
    n.text = "-.5E+39" ∧ leafValue "-.5E+39" = .ok (.infinite true) ∧
      IsNearest true n.magnitude (.infinite true) ∧ overflow ≤ n.magnitude ∧
      (¬∃ n : Numeral, n.text = "+iNf") ∧ leafValue "+iNf" =
        .error { kind := .invalidNumber, message := "invalid number +iNf", context := none } := by
  intro n
  have text : n.text = "-.5E+39" := by decide
  have value : leafValue "-.5E+39" = .ok (.infinite true) := by decide +kernel
  have failed : leafValue "+iNf" = .error (.invalidNumber "+iNf") := by decide
  obtain ⟨-, -, ofNumeral, ofValue, -⟩ := leafValue_nearest_numeral "-.5E+39"
  obtain ⟨accepted, otherwise, -⟩ := leafValue_nearest_numeral "+iNf"
  have noNumeral : ¬∃ n : Numeral, n.text = "+iNf" := by
    rw [← accepted, failed]
    exact nofun
  have large : overflow ≤ n.magnitude := by
    rcases ofValue text value with ⟨-, large⟩ | ⟨_, isFinite, -⟩
    · exact large
    · cases isFinite
  exact ⟨text, value, (ofNumeral text).mp value, large, noNumeral, otherwise noNumeral⟩

end Expr

end PolishCalc
