import PolishCalc.Proofs.Decimal.Numeral
import PolishCalc.Proofs.Decimal.Written

/-!
# Written decimals are numerals

A decimal is written as a numeral that has its sign and its magnitude
(`Decimal.exists_numeral_write`). Both layouts write the significant digits, of
which the first one counts the leading power of ten, and neither the point nor
the zeros around the digits change what they count.
-/

namespace PolishCalc

/-- The characters are those of a numeral without a sign and with the given magnitude. -/
def Spells (cs : List Char) (x : ℚ) : Prop :=
  ∃ n : Numeral, n.sign = .absent ∧ n.chars = cs ∧ n.magnitude = x

namespace Decimal

/-! ## Digits -/

theorem ofDigits_digitsOf (n : Nat) : ofDigits (digitsOf n) = n :=
  Nat.ofDigitChars_toDigits (by decide) (by decide)

theorem ofDigits_replicate_zero (n : Nat) : ofDigits (List.replicate n '0') = 0 := by
  induction n with
  | zero => rfl
  | succ n ih =>
    rw [List.replicate_succ', ofDigits_concat, ih]
    rfl

theorem ofDigits_append_zeros (digits : List Char) (n : Nat) :
    ofDigits (digits ++ List.replicate n '0') = ofDigits digits * 10 ^ n := by
  rw [ofDigits_append, ofDigits_replicate_zero, List.length_replicate, Nat.add_zero]

theorem isDigit_of_mem_zeros {n : Nat} {c : Char} (h : c ∈ List.replicate n '0') :
    c.isDigit = true := by
  rw [List.eq_of_mem_replicate h]
  decide

theorem exists_digitsOf_eq (d : Decimal) :
    ∃ zeros, digitsOf d.coefficient = d.significantDigits ++ List.replicate zeros '0' := by
  obtain ⟨digits, reversed⟩ : ∃ digits, digits = (digitsOf d.coefficient).reverse := ⟨_, rfl⟩
  have zeros : digits.takeWhile (· = '0') =
      List.replicate (digits.takeWhile (· = '0')).length '0' := by
    refine List.eq_replicate_of_mem fun c mem => ?_
    simpa using List.all_eq_true.mp List.all_takeWhile c mem
  refine ⟨(digits.takeWhile (· = '0')).length, ?_⟩
  rw [significantDigits, ← reversed, ← List.reverse_replicate, ← zeros, ← List.reverse_append,
    List.takeWhile_append_dropWhile, reversed, List.reverse_reverse]

/-- The value of digits of which the first one counts `10 ^ leading`. -/
def digitsMagnitude (digits : List Char) (leading : Int) : ℚ :=
  ofDigits digits * 10 ^ (leading + 1 - digits.length)

theorem digitsMagnitude_significantDigits (d : Decimal) :
    digitsMagnitude d.significantDigits d.leadingExponent = d.magnitude := by
  obtain ⟨zeros, digits⟩ := d.exists_digitsOf_eq
  have coefficient := ofDigits_digitsOf d.coefficient
  rw [digits, ofDigits_append_zeros] at coefficient
  unfold digitsMagnitude Decimal.magnitude leadingExponent
  have exponent : ((digitsOf d.coefficient).length - 1 + d.exponent + 1 -
      d.significantDigits.length : Int) = zeros + d.exponent := by
    rw [digits, List.length_append, List.length_replicate]
    push_cast
    ring
  rw [exponent, zpow_add₀ (by norm_num), zpow_natCast, ← coefficient, ← mul_assoc]
  push_cast
  rfl

theorem digitsMagnitude_append_zeros (digits : List Char) (zeros : Nat) (leading : Int) :
    digitsMagnitude (digits ++ List.replicate zeros '0') leading =
      digitsMagnitude digits leading := by
  unfold digitsMagnitude
  rw [ofDigits_append_zeros, List.length_append, List.length_replicate]
  push_cast
  rw [mul_assoc, ← zpow_natCast, ← zpow_add₀ (by norm_num)]
  congr 2
  ring

theorem digitsMagnitude_zeros_append (zeros : Nat) (digits : List Char) (leading : Int) :
    digitsMagnitude (List.replicate zeros '0' ++ digits) leading =
      digitsMagnitude digits (leading - zeros) := by
  unfold digitsMagnitude
  rw [ofDigits_append, ofDigits_replicate_zero, Nat.zero_mul, Nat.zero_add, List.length_append,
    List.length_replicate]
  congr 2
  push_cast
  ring

/-! ## Layouts -/

/-- The digits of both parts are read as one sequence, of which the first digit counts a power of
ten by its place in the whole part and by the exponent. -/
theorem spells_parts (whole : List Char) (fraction : Option (List Char))
    (exponent : Option Exponent) (ne : whole ≠ []) (isWhole : ∀ c ∈ whole, c.isDigit = true)
    (isFraction : ∀ c ∈ fraction.getD [], c.isDigit = true) :
    Spells (whole ++ (fraction.elim [] ('.' :: ·) ++ exponent.elim [] Exponent.chars))
      (digitsMagnitude (whole ++ fraction.getD [])
        (whole.length - 1 + exponent.elim 0 Exponent.value)) := by
  refine ⟨⟨.absent, whole, fraction, exponent, isWhole, isFraction, .inl ne⟩, rfl, rfl, ?_⟩
  rw [← Numeral.magnitude_decimal, Decimal.magnitude, Numeral.decimal, digitsMagnitude,
    List.length_append]
  congr 2
  push_cast
  ring

theorem spells_point (whole fraction : List Char) (ne : whole ≠ [])
    (isWhole : ∀ c ∈ whole, c.isDigit = true) (isFraction : ∀ c ∈ fraction, c.isDigit = true) :
    Spells (whole ++ '.' :: fraction)
      (digitsMagnitude (whole ++ fraction) (whole.length - 1)) := by
  simpa using spells_parts whole (some fraction) none ne isWhole isFraction

/-- All digits are in the whole part, and zeros may follow them on both sides of the point. -/
theorem spells_positional_of_le {digits : List Char} (isDigit : ∀ c ∈ digits, c.isDigit = true)
    {n : Nat} (le : digits.length ≤ n + 1) :
    Spells (positional digits (.ofNat n)) (digitsMagnitude digits (.ofNat n)) := by
  obtain ⟨zeros, size⟩ := Nat.exists_eq_add_of_le le
  obtain ⟨whole, front⟩ : ∃ whole, whole = digits ++ List.replicate zeros '0' := ⟨_, rfl⟩
  have length : whole.length = n + 1 := by
    rw [front, List.length_append, List.length_replicate, size]
  have first : (whole.length - 1 : Int) = .ofNat n := by
    rw [length, Int.ofNat_eq_natCast]
    omega
  have written : positional digits (.ofNat n) = whole ++ '.' :: ['0'] := by
    unfold positional
    dsimp only
    rw [List.take_of_length_le le, List.drop_eq_nil_of_le le, if_pos rfl, size,
      Nat.add_sub_cancel_left, front]
  have padded : whole ++ ['0'] = digits ++ List.replicate (zeros + 1) '0' := by
    rw [front, List.replicate_succ', List.append_assoc]
  have isWhole : ∀ c ∈ whole, c.isDigit = true := by
    rw [front, List.forall_mem_append]
    exact ⟨isDigit, fun c => isDigit_of_mem_zeros⟩
  have zero : ∀ c ∈ List.replicate 1 '0', c.isDigit = true := fun c => isDigit_of_mem_zeros
  rw [written, ← digitsMagnitude_append_zeros digits (zeros + 1), ← padded, ← first]
  exact spells_point whole ['0'] (List.ne_nil_of_length_eq_add_one length) isWhole zero

/-- There are digits on both sides of the point. -/
theorem spells_positional_of_lt {digits : List Char} (isDigit : ∀ c ∈ digits, c.isDigit = true)
    {n : Nat} (lt : n + 1 < digits.length) :
    Spells (positional digits (.ofNat n)) (digitsMagnitude digits (.ofNat n)) := by
  have length : (digits.take (n + 1)).length = n + 1 :=
    List.length_take_of_le (Nat.le_of_lt lt)
  have first : ((digits.take (n + 1)).length - 1 : Int) = .ofNat n := by
    rw [length, Int.ofNat_eq_natCast]
    omega
  have more : digits.drop (n + 1) ≠ [] := fun none =>
    Nat.not_le_of_lt lt (List.drop_eq_nil_iff.mp none)
  have written : positional digits (.ofNat n) =
      digits.take (n + 1) ++ '.' :: digits.drop (n + 1) := by
    unfold positional
    dsimp only
    rw [if_neg more, Nat.sub_eq_zero_of_le (Nat.le_of_lt lt), List.replicate_zero, List.append_nil]
  have spelled := spells_point (digits.take (n + 1)) (digits.drop (n + 1))
    (List.ne_nil_of_length_eq_add_one length)
    (fun c mem => isDigit c (List.mem_of_mem_take mem))
    (fun c mem => isDigit c (List.mem_of_mem_drop mem))
  rwa [List.take_append_drop, first, ← written] at spelled

theorem spells_positional {digits : List Char} (isDigit : ∀ c ∈ digits, c.isDigit = true)
    (leading : Int) : Spells (positional digits leading) (digitsMagnitude digits leading) := by
  cases leading with
  | ofNat n =>
    rcases Nat.lt_or_ge (n + 1) digits.length with more | all
    · exact spells_positional_of_lt isDigit more
    · exact spells_positional_of_le isDigit all
  | negSucc n =>
    have isZero (n : Nat) : ∀ c ∈ List.replicate n '0', c.isDigit = true :=
      fun c => isDigit_of_mem_zeros
    have first : Int.negSucc n = (['0'].length - 1 : Int) - (n + 1 : Nat) := by
      simp [Int.negSucc_eq]
    rw [first, ← digitsMagnitude_zeros_append, List.replicate_succ]
    exact spells_point ['0'] _ (List.cons_ne_nil _ _) (isZero 1)
      (List.forall_mem_append.mpr ⟨isZero n, isDigit⟩)

theorem exists_exponent (n : Int) :
    ∃ exponent : Exponent, exponent.chars = 'e' :: writeInt n ∧ exponent.value = n := by
  have isDigit : ∀ c ∈ digitsOf n.natAbs, c.isDigit = true := fun c => isDigit_of_mem_digitsOf
  have ne : digitsOf n.natAbs ≠ [] := Nat.toDigits_ne_nil
  unfold writeInt
  split
  next negative =>
    refine ⟨⟨'e', .minus, digitsOf n.natAbs, .inl rfl, isDigit, ne⟩, rfl, ?_⟩
    show -(ofDigits (digitsOf n.natAbs) : Int) = n
    rw [ofDigits_digitsOf]
    omega
  next nonneg =>
    refine ⟨⟨'e', .absent, digitsOf n.natAbs, .inl rfl, isDigit, ne⟩, rfl, ?_⟩
    show (ofDigits (digitsOf n.natAbs) : Int) = n
    rw [ofDigits_digitsOf]
    omega

theorem spells_scientific {digits : List Char} (ne : digits ≠ [])
    (isDigit : ∀ c ∈ digits, c.isDigit = true) (leading : Int) :
    Spells (scientific digits leading) (digitsMagnitude digits leading) := by
  obtain ⟨exponent, chars, value⟩ := exists_exponent leading
  fun_cases scientific digits leading with
  | case1 => exact absurd rfl ne
  | case2 d =>
    have spelled := spells_parts [d] none (some exponent) ne isDigit (by simp)
    simpa [chars, value] using spelled
  | case3 d fraction =>
    obtain ⟨first, rest⟩ := List.forall_mem_cons.mp isDigit
    have spelled := spells_parts [d] (some fraction) (some exponent) (List.cons_ne_nil _ _)
      (by simpa using first) rest
    simpa [chars, value] using spelled

/-! ## Whole decimals -/

theorem spells_writeUnsigned (d : Decimal) : Spells d.writeUnsigned d.magnitude := by
  have isDigit : ∀ c ∈ d.significantDigits, c.isDigit = true :=
    fun _ mem => isDigit_of_mem_significantDigits mem
  rw [← digitsMagnitude_significantDigits]
  unfold writeUnsigned
  dsimp only
  split
  next none =>
    have zero : digitsMagnitude [] d.leadingExponent = digitsMagnitude [] 0 := by
      simp [digitsMagnitude]
    rw [none, zero]
    exact spells_positional (List.forall_mem_nil _) 0
  next some =>
    split
    · exact spells_positional isDigit _
    · exact spells_scientific some isDigit _

theorem exists_numeral_write (d : Decimal) :
    ∃ n : Numeral, n.chars = d.write ∧ n.negative = d.negative ∧ n.magnitude = d.magnitude := by
  obtain ⟨n, absent, chars, magnitude⟩ := d.spells_writeUnsigned
  unfold write
  split
  next minus =>
    refine ⟨{ n with sign := .minus }, ?_, minus.symm, magnitude⟩
    rw [← chars]
    simp [Numeral.chars, absent, Sign.chars]
  next plain =>
    refine ⟨n, chars, ?_, magnitude⟩
    rw [Numeral.negative, absent, Bool.eq_false_of_not_eq_true plain]
    rfl

end Decimal

end PolishCalc
