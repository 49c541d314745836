import PolishCalc.Proofs.Binary32.Decimal
import PolishCalc.Proofs.Decimal.Spelling
import PolishCalc.Proofs.Evaluation.Literal
import PolishCalc.Proofs.Text
import PolishCalc.Proofs.Token.Clean

/-!
# The texts of numbers

The text of a number is a single atom (`clean_text`). As a leaf, that of a finite
number has this number as its value (`leafValue_text_of_isFinite`), sign of zero
included, and the names of the other numbers have none.
-/

namespace PolishCalc.Binary32

open Decimal (IsNumeric)
open Text (isBlank)
open Token (Clean)

/-! ## Characters -/

/-- The character is neither blank nor a parenthesis. -/
def isPlain (c : Char) : Bool :=
  !isBlank c && c ≠ '(' && c ≠ ')'

theorem isPlain_iff {c : Char} : isPlain c = true ↔ isBlank c = false ∧ c ≠ '(' ∧ c ≠ ')' := by
  simp [isPlain, and_assoc]

theorem isPlain_of_isDigit {c : Char} (h : c.isDigit = true) : isPlain c = true := by
  refine isPlain_iff.mpr ⟨Text.isBlank_eq_false_of_isDigit h, ?_, ?_⟩
  · rintro rfl
    exact absurd h (by decide)
  · rintro rfl
    exact absurd h (by decide)

theorem isPlain_of_isNumeric {c : Char} (h : IsNumeric c) : isPlain c = true := by
  rcases h with digit | rfl | rfl | rfl
  · exact isPlain_of_isDigit digit
  · decide
  · decide
  · decide

theorem all_isPlain_text (x : Binary32) : x.text.toList.all isPlain = true := by
  cases x with
  | nan => decide
  | infinite negative => cases negative <;> decide
  | finite negative magnitude =>
    rw [text, String.toList_ofList, List.all_eq_true]
    exact fun c mem => isPlain_of_isNumeric ((shortest negative magnitude).forall_mem_write c mem)

theorem plain_of_mem_text {x : Binary32} {c : Char} (h : c ∈ x.text.toList) :
    isBlank c = false ∧ c ≠ '(' ∧ c ≠ ')' :=
  isPlain_iff.mp (List.all_eq_true.mp x.all_isPlain_text c h)

/-! ## Values -/

theorem exists_numeral_text (negative : Bool) (magnitude : Fin finiteCount) :
    ∃ n : Numeral, n.text = (finite negative magnitude).text ∧
      IsNearest n.negative n.magnitude (finite negative magnitude) := by
  obtain ⟨n, chars, sign, value⟩ := (shortest negative magnitude).exists_numeral_write
  have nearest := isNearest_ofDecimal (shortest negative magnitude)
  rw [ofDecimal_shortest, ← sign, ← value] at nearest
  exact ⟨n, congrArg String.ofList chars, nearest⟩

variable {x : Binary32}

theorem leafValue_text_of_isFinite (h : x.isFinite = true) : Expr.leafValue x.text = .ok x := by
  cases x with
  | nan => cases h
  | infinite => cases h
  | finite negative magnitude =>
    obtain ⟨n, text, nearest⟩ := exists_numeral_text negative magnitude
    rw [← text]
    exact Expr.leafValue_text_eq_ok_iff.mpr nearest

theorem text_mem_of_not_isFinite (h : x.isFinite = false) : x.text ∈ ["inf", "-inf", "NaN"] := by
  cases x with
  | nan => decide
  | infinite negative => cases negative <;> decide
  | finite => cases h

theorem leafValue_text_of_not_isFinite (h : x.isFinite = false) :
    Expr.leafValue x.text = .error (.invalidNumber x.text) := by
  have names : ∀ name ∈ ["inf", "-inf", "NaN"],
      Expr.leafValue name = .error (.invalidNumber name) := by
    decide
  exact names _ (text_mem_of_not_isFinite h)

/-! ## Atoms -/

theorem text_not_mem (x : Binary32) : x.text ∉ ["", "exit", "quit", "ERROR"] := by
  intro mem
  cases h : x.isFinite with
  | true =>
    have words : ∀ word ∈ ["", "exit", "quit", "ERROR"],
        Expr.leafValue word = .error (.invalidNumber word) := by
      decide
    have value := leafValue_text_of_isFinite h
    rw [words _ mem] at value
    cases value
  | false =>
    have names : ∀ name ∈ ["inf", "-inf", "NaN"], name ∉ ["", "exit", "quit", "ERROR"] := by
      decide
    exact names _ (text_mem_of_not_isFinite h) mem

theorem clean_text (x : Binary32) : Clean x.text := by
  refine ⟨fun empty => ?_, fun paren => ?_, fun paren => ?_, fun c mem => ?_, fun c mem => ?_,
    fun c mem => ?_⟩
  · exact x.text_not_mem (by rw [empty]; decide)
  · exact (plain_of_mem_text (c := '(') (by rw [paren]; decide)).2.1 rfl
  · exact (plain_of_mem_text (c := ')') (by rw [paren]; decide)).2.2 rfl
  · exact (plain_of_mem_text mem).1
  · exact (plain_of_mem_text (List.mem_of_mem_dropLast mem)).2.1
  · exact (plain_of_mem_text (List.mem_of_mem_tail mem)).2.2

end PolishCalc.Binary32
