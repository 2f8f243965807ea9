import LineBasic.Lexeme.Grammar

/-! Integers as text: digits that spell their value, after a sign if the value
is negative. The smallest integer has no positive counterpart, so its digits
spell no integer. -/

namespace LineBasic

theorem toString_of_nonneg {value : Int64} (unsigned : 0 ≤ value) :
    (toString value).toList = Nat.toDigits 10 value.toNatClampNeg := by
  have same : toString value = value.toInt.repr := rfl
  rw [same, Int64.toInt_eq_toNatClampNeg unsigned]
  exact Nat.toList_repr

theorem toNatClampNeg_le_largestInt (value : Int64) :
    value.toNatClampNeg ≤ Lexeme.largestInt := by
  have bound := value.toNatClampNeg_lt
  rw [Lexeme.largestInt]
  omega

theorem isDigit_of_mem_toDigits {value : Nat} {digit : Char}
    (member : digit ∈ Nat.toDigits 10 value) : digit.isDigit = true :=
  Nat.isDigit_of_mem_toDigits (by decide) (by decide) member

/-- The digits of a number in range spell it. -/
theorem spelled_toDigits {value : Nat} (inRange : value ≤ Lexeme.largestInt) :
    (Lexeme.int (Int64.ofNat value)).Spelled (Nat.toDigits 10 value) := by
  have decimal : ∀ digit ∈ Nat.toDigits 10 value, digit.isDigit = true :=
    fun _ member => isDigit_of_mem_toDigits member
  have sameValue := Nat.ofDigitChars_ten_toDigits (n := value)
  have spelled := Lexeme.Spelled.int Nat.toDigits_ne_nil decimal
    (sameValue.symm ▸ inRange)
  rwa [sameValue] at spelled

/-- The text of an integer without a sign spells it. -/
theorem spelled_toString {value : Int64} (unsigned : 0 ≤ value) :
    (Lexeme.int value).Spelled (toString value).toList := by
  have spelled := spelled_toDigits (toNatClampNeg_le_largestInt value)
  rwa [Int64.ofNat_toNatClampNeg value unsigned,
    ← toString_of_nonneg unsigned] at spelled

theorem toInt_neg_of_minValue_lt {value : Int64}
    (readable : Int64.minValue < value) : (-value).toInt = -value.toInt := by
  have lower := Int64.lt_iff_toInt_lt.mp readable
  have upper := value.toInt_lt
  rw [Int64.toInt_minValue] at lower
  rw [Int64.toInt_neg, Int.bmod_eq_of_le] <;> omega

/-- A negative integer is written as the sign and its positive counterpart. -/
theorem toString_of_neg {value : Int64} (readable : Int64.minValue < value)
    (negative : value < 0) : toString value = "-" ++ toString (-value) := by
  have same : toString value = value.toInt.repr := rfl
  have counterpart : toString (-value) = (-value).toInt.repr := rfl
  have below := Int64.lt_iff_toInt_lt.mp negative
  rw [Int64.toInt_zero] at below
  rw [same, counterpart, toInt_neg_of_minValue_lt readable]
  rcases Int.eq_negSucc_of_lt_zero below with ⟨size, equal⟩
  rw [equal]
  rfl

theorem neg_nonneg_of_neg {value : Int64} (readable : Int64.minValue < value)
    (negative : value < 0) : 0 ≤ -value := by
  have below := Int64.lt_iff_toInt_lt.mp negative
  rw [Int64.toInt_zero] at below
  rw [Int64.le_iff_toInt_le, toInt_neg_of_minValue_lt readable, Int64.toInt_zero]
  omega

end LineBasic
