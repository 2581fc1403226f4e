/-!
# Lossy UTF-8

`decodeLossy` reads bytes as UTF-8. A sequence that breaks off, or that the encoding rules out, gives one
replacement character for its longest part that could still have begun a character.

* `Lead.ofByte?` : what the first byte of a character of several bytes asks for;
* `continuation` : the bytes after the first one;
* `nextChar` : one character, or one replacement, and the bytes after it.
-/

namespace ExprLang.Text

/-- The character that stands in for bytes that are no UTF-8. -/
def replacement : Char := '\ufffd'

/-- What the first byte of a character of several bytes says: some bits of the character, and how many bytes follow. The
bounds on the second byte rule out forms that are too long, surrogates, and code points above U+10FFFF. -/
structure Lead where
  bits : Nat
  more : Nat
  low : UInt8
  high : UInt8

/-- The demand of a first byte, or `none` if no character of several bytes begins with it. -/
def Lead.ofByte? (b : UInt8) : Option Lead :=
  let n := b.toNat
  if b < 0xC2 then none
  else if b < 0xE0 then some ⟨n - 0xC0, 1, 0x80, 0xBF⟩
  else if b < 0xF0 then
    some ⟨n - 0xE0, 2, if b = 0xE0 then 0xA0 else 0x80, if b = 0xED then 0x9F else 0xBF⟩
  else if b < 0xF5 then
    some ⟨n - 0xF0, 3, if b = 0xF0 then 0x90 else 0x80, if b = 0xF4 then 0x8F else 0xBF⟩
  else none

/-- Reads the `more` bytes that complete a character, the first of them between `low` and `high`. At a byte that
does not fit, the replacement comes out and that byte is left. -/
def continuation (bits : Nat) (low high : UInt8) : Nat → List UInt8 → Char × List UInt8
  | 0, bs => (Char.ofNat bits, bs)
  | _ + 1, [] => (replacement, [])
  | more + 1, b :: bs =>
    if low ≤ b ∧ b ≤ high then continuation (bits * 64 + (b.toNat - 0x80)) 0x80 0xBF more bs
    else (replacement, b :: bs)

def nextChar (b : UInt8) (bs : List UInt8) : Char × List UInt8 :=
  if b < 0x80 then (Char.ofNat b.toNat, bs)
  else
    match Lead.ofByte? b with
    | some lead => continuation lead.bits lead.low lead.high lead.more bs
    | none => (replacement, bs)

theorem length_continuation_le (bits : Nat) (low high : UInt8) (more : Nat) (bs : List UInt8) :
    (continuation bits low high more bs).2.length ≤ bs.length := by
  induction more generalizing bits low high bs with
  | zero => simp [continuation]
  | succ more ih =>
    cases bs with
    | nil => simp [continuation]
    | cons b bs =>
      simp only [continuation]
      split
      · exact Nat.le_succ_of_le (ih ..)
      · exact Nat.le_refl _

theorem length_nextChar_le (b : UInt8) (bs : List UInt8) : (nextChar b bs).2.length ≤ bs.length := by
  unfold nextChar
  split
  · exact Nat.le_refl _
  · split
    · exact length_continuation_le ..
    · exact Nat.le_refl _

/-- The text that the bytes hold, with a replacement for each part that is no UTF-8. -/
def decodeLossy : List UInt8 → List Char
  | [] => []
  | b :: bs => (nextChar b bs).1 :: decodeLossy (nextChar b bs).2
termination_by bs => bs.length
decreasing_by exact Nat.lt_succ_of_le (length_nextChar_le b bs)

end ExprLang.Text
