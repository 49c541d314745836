import PolishCalc.Decimal

/-!
# The characters of written decimals

A decimal is written with digits, minus signs, a point and the letter of an
exponent, and with nothing else (`forall_mem_write`).
-/

namespace PolishCalc.Decimal

/-- A character that a written decimal may have. -/
def IsNumeric (c : Char) : Prop :=
  c.isDigit = true ∨ c = '-' ∨ c = '.' ∨ c = 'e'

theorem isNumeric_minus : IsNumeric '-' := .inr (.inl rfl)

theorem isNumeric_point : IsNumeric '.' := .inr (.inr (.inl rfl))

theorem isNumeric_letter : IsNumeric 'e' := .inr (.inr (.inr rfl))

theorem isNumeric_zero : IsNumeric '0' := .inl (by decide)

theorem isDigit_of_mem_digitsOf {n : Nat} {c : Char} (h : c ∈ digitsOf n) : c.isDigit = true :=
  Nat.isDigit_of_mem_toDigits (by decide) (by decide) h

theorem isDigit_of_mem_significantDigits {d : Decimal} {c : Char}
    (h : c ∈ d.significantDigits) : c.isDigit = true := by
  rw [significantDigits, List.mem_reverse] at h
  exact isDigit_of_mem_digitsOf (List.mem_reverse.mp ((List.dropWhile_sublist _).subset h))

theorem forall_mem_significantDigits (d : Decimal) : ∀ c ∈ d.significantDigits, IsNumeric c :=
  fun _ mem => .inl (isDigit_of_mem_significantDigits mem)

theorem forall_mem_writeInt (n : Int) : ∀ c ∈ writeInt n, IsNumeric c := by
  have digits : ∀ c ∈ digitsOf n.natAbs, IsNumeric c :=
    fun _ mem => .inl (isDigit_of_mem_digitsOf mem)
  unfold writeInt
  split
  · exact List.forall_mem_cons.mpr ⟨isNumeric_minus, digits⟩
  · exact digits

section Layout

variable {digits : List Char} (numeric : ∀ c ∈ digits, IsNumeric c) (leading : Int)

include numeric

theorem forall_mem_positional : ∀ c ∈ positional digits leading, IsNumeric c := by
  have zeros (n : Nat) : ∀ c ∈ List.replicate n '0', IsNumeric c := fun _ mem =>
    List.eq_of_mem_replicate mem ▸ isNumeric_zero
  cases leading with
  | ofNat n =>
    have fraction : ∀ c ∈ if digits.drop (n + 1) = [] then ['0'] else digits.drop (n + 1),
        IsNumeric c := by
      split
      · exact List.forall_mem_singleton.mpr isNumeric_zero
      · exact fun c mem => numeric c (List.mem_of_mem_drop mem)
    simp only [positional, List.forall_mem_append, List.forall_mem_cons]
    exact ⟨⟨fun c mem => numeric c (List.mem_of_mem_take mem), zeros _⟩, isNumeric_point, fraction⟩
  | negSucc n =>
    simp only [positional, List.forall_mem_append, List.forall_mem_cons]
    exact ⟨isNumeric_zero, isNumeric_point, zeros n, numeric⟩

theorem forall_mem_scientific : ∀ c ∈ scientific digits leading, IsNumeric c := by
  have exponent := forall_mem_writeInt leading
  fun_cases scientific digits leading with
  | case1 =>
    simp only [List.forall_mem_cons]
    exact ⟨isNumeric_zero, isNumeric_letter, exponent⟩
  | case2 d =>
    simp only [List.forall_mem_cons] at numeric ⊢
    exact ⟨numeric.1, isNumeric_letter, exponent⟩
  | case3 d fraction =>
    simp only [List.forall_mem_append, List.forall_mem_cons] at numeric ⊢
    exact ⟨numeric.1, isNumeric_point, numeric.2, isNumeric_letter, exponent⟩

end Layout

theorem forall_mem_writeUnsigned (d : Decimal) : ∀ c ∈ d.writeUnsigned, IsNumeric c := by
  have numeric := d.forall_mem_significantDigits
  unfold writeUnsigned
  dsimp only
  split
  · exact forall_mem_positional (List.forall_mem_nil _) 0
  · split
    · exact forall_mem_positional numeric _
    · exact forall_mem_scientific numeric _

theorem forall_mem_write (d : Decimal) : ∀ c ∈ d.write, IsNumeric c := by
  unfold write
  split
  · exact List.forall_mem_cons.mpr ⟨isNumeric_minus, d.forall_mem_writeUnsigned⟩
  · exact d.forall_mem_writeUnsigned

end PolishCalc.Decimal
