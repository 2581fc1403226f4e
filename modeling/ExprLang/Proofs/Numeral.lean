import Mathlib.Algebra.Group.Nat.Defs
import ExprLang.Numeral
import ExprLang.Proofs.Lexeme

/-!
# The value of a run of digits

A digit counts ten times as much as the digit after it. A run of digits is read exactly if its value fits in 64 bits,
and the digits of its value are the run itself, without the zeros at its front that count for nothing.

* `Numeral.placeValue` : the value by places, `ofDigitChars_eq_placeValue`;
* `Numeral.withoutLeadingZeros` : the digits that count, `toDigits_placeValue`;
* `Numeral.exists_int64?_eq_some`, `Numeral.int64?_eq_none` : what is read from a run of digits.
-/

namespace ExprLang.Numeral

/-- The value of a run of digits: every digit counts for a power of ten that its place fixes. -/
def placeValue : List Char → Nat
  | [] => 0
  | c :: cs => (c.toNat - '0'.toNat) * 10 ^ cs.length + placeValue cs

/-- The digits without the zeros at their front. Of zeros alone one is left. -/
def withoutLeadingZeros (cs : List Char) : List Char :=
  match cs.dropWhile (· == '0') with
  | [] => ['0']
  | d :: ds => d :: ds

theorem ofDigitChars_eq_placeValue (cs : List Char) : Nat.ofDigitChars 10 cs 0 = placeValue cs := by
  induction cs with
  | nil => rfl
  | cons c cs ih =>
    rw [Nat.ofDigitChars_cons, Nat.ofDigitChars_eq_ofDigitChars_zero, ih, placeValue, Nat.mul_zero, Nat.zero_add,
      Nat.mul_comm]

/-! ## The digits of the value -/

theorem toNat_sub_lt_of_isDigit {c : Char} (h : c.isDigit = true) : c.toNat - '0'.toNat < 10 := by
  have hzero : '0'.toNat = 48 := rfl
  have := (Lexeme.isDigit_iff_toNat c).1 h
  omega

theorem digitChar_of_isDigit {c : Char} (h : c.isDigit = true) : Nat.digitChar (c.toNat - '0'.toNat) = c := by
  have hzero : '0'.toNat = 48 := rfl
  have hc := (Lexeme.isDigit_iff_toNat c).1 h
  rw [← Char.toNat_inj, Nat.toNat_digitChar_of_lt_ten (toNat_sub_lt_of_isDigit h)]
  omega

/-- Digits that are read after a number above zero stand unchanged after its own digits. -/
theorem toDigits_ofDigitChars {cs : List Char} (digits : ∀ c ∈ cs, c.isDigit = true) {n : Nat} (pos : 0 < n) :
    Nat.toDigits 10 (Nat.ofDigitChars 10 cs n) = Nat.toDigits 10 n ++ cs := by
  induction cs generalizing n with
  | nil => rw [Nat.ofDigitChars_nil, List.append_nil]
  | cons c cs ih =>
    obtain ⟨hc, hcs⟩ := List.forall_mem_cons.1 digits
    have hlt := toNat_sub_lt_of_isDigit hc
    have hone : Nat.toDigits 10 (c.toNat - '0'.toNat) = [c] := by
      rw [Nat.toDigits_of_lt_base hlt, digitChar_of_isDigit hc]
    rw [Nat.ofDigitChars_cons, ih hcs (by omega), ← Nat.toDigits_append_toDigits (by decide) pos hlt, hone,
      List.append_assoc, List.singleton_append]

/-- The digits of the value of a run are those of the run that count. -/
theorem toDigits_placeValue {cs : List Char} (digits : ∀ c ∈ cs, c.isDigit = true) :
    Nat.toDigits 10 (placeValue cs) = withoutLeadingZeros cs := by
  induction cs with
  | nil => decide
  | cons c cs ih =>
    obtain ⟨hc, hcs⟩ := List.forall_mem_cons.1 digits
    by_cases hzero : c = '0'
    · subst hzero
      have hvalue : placeValue ('0' :: cs) = placeValue cs := by simp [placeValue]
      rw [hvalue, ih hcs]
      rfl
    · have hlt := toNat_sub_lt_of_isDigit hc
      have hpos : 0 < c.toNat - '0'.toNat := by
        have hne : c.toNat ≠ '0'.toNat := fun h => hzero (Char.toNat_inj.1 h)
        have hle : '0'.toNat ≤ c.toNat := ((Lexeme.isDigit_iff_toNat c).1 hc).1
        omega
      have hkept : withoutLeadingZeros (c :: cs) = c :: cs := by
        rw [withoutLeadingZeros, List.dropWhile_cons_of_neg (by simpa using hzero)]
      rw [← ofDigitChars_eq_placeValue, Nat.ofDigitChars_cons, Nat.mul_zero, Nat.zero_add,
        toDigits_ofDigitChars hcs hpos, Nat.toDigits_of_lt_base hlt, digitChar_of_isDigit hc, hkept]
      rfl

/-! ## Reading a run of digits -/

section

variable {text : String} (nonempty : text ≠ "") (digits : ∀ c ∈ text.toList, c.isDigit = true)
include nonempty digits

theorem integer?_of_digits : integer? text.toList = some (placeValue text.toList : Int) := by
  have hne : text.toList ≠ [] := fun h => nonempty (String.toList_eq_nil_iff.1 h)
  have hread : natural? text.toList = some (placeValue text.toList) :=
    (natural?_eq_some_iff _ _).2 ⟨hne, digits, ofDigitChars_eq_placeValue _⟩
  obtain ⟨c, cs, htext⟩ := List.exists_cons_of_ne_nil hne
  rw [htext] at hread digits ⊢
  rw [integer?_of_isDigit c cs (digits c List.mem_cons_self), hread]
  rfl

/-- A value that fits in 64 bits is read. -/
theorem exists_int64?_eq_some (fits : placeValue text.toList ≤ 9223372036854775807) :
    ∃ i : Int64, i.toInt = placeValue text.toList ∧ int64? text = some i := by
  have hmin : Int64.minValue.toInt = -9223372036854775808 := Int64.toInt_minValue
  have hmax : Int64.maxValue.toInt = 9223372036854775807 := Int64.toInt_maxValue
  refine ⟨Int64.ofInt (placeValue text.toList), Int64.toInt_ofInt_of_le (by omega) (by omega), ?_⟩
  rw [int64?, integer?_of_digits nonempty digits, Option.bind_some, if_pos (by omega)]

/-- A value that does not fit is not read. -/
theorem int64?_eq_none (large : 9223372036854775807 < placeValue text.toList) : int64? text = none := by
  have hmax : Int64.maxValue.toInt = 9223372036854775807 := Int64.toInt_maxValue
  rw [int64?, integer?_of_digits nonempty digits, Option.bind_some, if_neg (by omega)]

end

end ExprLang.Numeral
