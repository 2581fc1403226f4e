/-!
# Numerals

Integers of 64 bits in base ten.

* `natural?` : the value of a run of digits, leading zeros allowed;
* `integer?` : a run of digits with at most one sign before it;
* `int64?` : the same, if the value fits in 64 bits;
* `ofInt64` : the shortest numeral of a value, `int64?_ofInt64`, `exists_digits_ofInt64`.
-/

namespace ExprLang.Numeral

/-- The value of a run of ASCII digits, which must not be empty. -/
def natural? (cs : List Char) : Option Nat :=
  if !cs.isEmpty && cs.all Char.isDigit then some (Nat.ofDigitChars 10 cs 0) else none

/-- The value of a run of digits with at most one sign before it. -/
def integer? : List Char → Option Int
  | '+' :: cs => (natural? cs).map Int.ofNat
  | '-' :: cs => (natural? cs).map fun n => -(n : Int)
  | cs => (natural? cs).map Int.ofNat

/-- The value of a numeral, if it is one and its value fits in 64 bits. -/
def int64? (text : String) : Option Int64 :=
  (integer? text.toList).bind fun i =>
    if Int64.minValue.toInt ≤ i ∧ i ≤ Int64.maxValue.toInt then some (Int64.ofInt i) else none

def ofInt64 (n : Int64) : String := n.toInt.repr

/-! ## Reading back -/

theorem natural?_eq_some_iff (cs : List Char) (n : Nat) :
    natural? cs = some n ↔ cs ≠ [] ∧ (∀ c ∈ cs, c.isDigit = true) ∧ Nat.ofDigitChars 10 cs 0 = n := by
  cases cs with
  | nil => simp [natural?]
  | cons c cs => simp [natural?, and_assoc]

@[simp] theorem natural?_toDigits (n : Nat) : natural? (Nat.toDigits 10 n) = some n :=
  (natural?_eq_some_iff _ _).2 ⟨Nat.toDigits_ne_nil,
    fun _ h => Nat.isDigit_of_mem_toDigits (by decide) (by decide) h,
    Nat.ofDigitChars_toDigits (by decide) (by decide)⟩

/-- A numeral without a sign. -/
theorem integer?_of_isDigit (c : Char) (cs : List Char) (h : c.isDigit = true) :
    integer? (c :: cs) = (natural? (c :: cs)).map Int.ofNat := by
  unfold integer?
  split
  · next he => cases he; exact absurd h (by decide)
  · next he => cases he; exact absurd h (by decide)
  · rfl

theorem integer?_repr (i : Int) : integer? i.repr.toList = some i := by
  rw [Int.repr_eq_if]
  split
  · next h =>
    rw [Nat.repr_eq_ofList_toDigits, String.toList_ofList]
    cases hd : Nat.toDigits 10 i.toNat with
    | nil => exact absurd hd Nat.toDigits_ne_nil
    | cons c cs =>
      have hc : c.isDigit = true :=
        Nat.isDigit_of_mem_toDigits (b := 10) (n := i.toNat) (by decide) (by decide) (by simp [hd])
      rw [integer?_of_isDigit c cs hc, ← hd, natural?_toDigits]
      simp; omega
  · next h =>
    have hs : ("-" ++ (-i).toNat.repr).toList = '-' :: Nat.toDigits 10 (-i).toNat := by
      simp [Nat.repr_eq_ofList_toDigits]
    rw [hs, integer?, natural?_toDigits]
    simp; omega

/-- Every value is read back from its numeral. -/
theorem int64?_ofInt64 (n : Int64) : int64? (ofInt64 n) = some n := by
  simp only [int64?, ofInt64, integer?_repr, Option.bind_some]
  rw [if_pos ⟨n.minValue_le_toInt, n.toInt_le⟩, Int64.ofInt_toInt]

theorem ofInt64_inj {i j : Int64} : ofInt64 i = ofInt64 j ↔ i = j := by
  constructor
  · intro h
    have hread := congrArg int64? h
    simpa [int64?_ofInt64] using hread
  · rintro rfl
    rfl

/-- The value of a run of digits is never below zero. -/
theorem toInt_of_int64?_eq_some {text : String} {i : Int64} (digits : ∀ c ∈ text.toList, c.isDigit = true)
    (h : int64? text = some i) : i.toInt = Nat.ofDigitChars 10 text.toList 0 := by
  obtain ⟨k, hk, hi⟩ := Option.bind_eq_some_iff.1 h
  have hread : integer? text.toList = (natural? text.toList).map Int.ofNat := by
    cases htext : text.toList with
    | nil => rfl
    | cons c cs => exact integer?_of_isDigit c cs (digits c (by simp [htext]))
  rw [hread] at hk
  obtain ⟨n, hn, rfl⟩ := Option.map_eq_some_iff.1 hk
  obtain ⟨-, -, rfl⟩ := (natural?_eq_some_iff _ _).1 hn
  split at hi
  · next hrange =>
    obtain rfl := Option.some.inj hi
    rw [Int64.toInt_maxValue] at hrange
    exact Int64.toInt_ofInt_of_le hrange.1 (by omega)
  · cases hi

/-! ## The characters of a numeral -/

/-- A numeral is a run of digits, with a minus sign before it or not. -/
theorem exists_digits_ofInt64 (n : Int64) : ∃ digits : List Char, digits ≠ [] ∧ (∀ c ∈ digits, c.isDigit = true) ∧
    ((ofInt64 n).toList = digits ∨ (ofInt64 n).toList = '-' :: digits) := by
  have hdigits : ∀ k : Nat, Nat.toDigits 10 k ≠ [] ∧ ∀ c ∈ Nat.toDigits 10 k, c.isDigit = true :=
    fun k => ⟨Nat.toDigits_ne_nil, fun _ h => Nat.isDigit_of_mem_toDigits (by decide) (by decide) h⟩
  rw [ofInt64, Int.repr_eq_if]
  split
  · obtain ⟨hne, hall⟩ := hdigits n.toInt.toNat
    exact ⟨_, hne, hall, Or.inl (by simp [Nat.repr_eq_ofList_toDigits])⟩
  · obtain ⟨hne, hall⟩ := hdigits (-n.toInt).toNat
    exact ⟨_, hne, hall, Or.inr (by simp [Nat.repr_eq_ofList_toDigits])⟩

theorem newline_notMem_ofInt64 (n : Int64) : '\n' ∉ (ofInt64 n).toList := by
  obtain ⟨digits, -, hall, h | h⟩ := exists_digits_ofInt64 n
  · rw [h]
    exact fun hmem => absurd (hall _ hmem) (by decide)
  · rw [h, List.mem_cons, not_or]
    exact ⟨by decide, fun hmem => absurd (hall _ hmem) (by decide)⟩

end ExprLang.Numeral
