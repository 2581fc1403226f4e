import Mathlib.Algebra.GroupWithZero.Nat
import ExprLang.Text.Cursor

/-!
# A cursor between characters

A cursor that starts at the front of a text and moves by bytes stands between two characters, whatever it is asked
for. It takes a move exactly if a character ends where the move leads.

* `Cursor.tryAdvance`, `Cursor.tryAdvances` : moves that are left out if they are refused;
* `Cursor.accepted` : the moves that are not;
* `Cursor.Divides` : the cursor cuts the text in two, and its offset is the length of the first part;
* `Cursor.Divides.isSome_advance?_iff` : which moves are taken;
* `Cursor.StandsAfter.tryAdvances` : where a cursor stands after any moves.
-/

namespace ExprLang.Text

theorem utf8ByteSize_ofList (cs : List Char) : (String.ofList cs).utf8ByteSize = byteLength cs := by
  induction cs with
  | nil => rfl
  | cons c cs ih =>
    rw [← List.singleton_append, String.ofList_append, String.utf8ByteSize_append, ← String.singleton_eq_ofList,
      String.utf8ByteSize_singleton, ih]
    rfl

theorem byteLength_toList (s : String) : byteLength s.toList = s.utf8ByteSize := by
  rw [← utf8ByteSize_ofList, String.ofList_toList]

theorem byteLength_eq_zero_iff (cs : List Char) : byteLength cs = 0 ↔ cs = [] := by
  cases cs with
  | nil => exact iff_of_true rfl rfl
  | cons c cs =>
    have := c.utf8Size_pos
    simp [byteLength]
    omega

theorem splitBytes?_append (xs ys : List Char) : splitBytes? (byteLength xs) (xs ++ ys) = some (xs, ys) :=
  (splitBytes?_eq_some_iff _ _ _).2 ⟨rfl, rfl⟩

namespace Cursor

/-- Moves past `n` bytes, or stays if no character ends there. -/
def tryAdvance (c : Cursor) (n : Nat) : Cursor := (c.advance? n).getD c

def tryAdvances (c : Cursor) (moves : List Nat) : Cursor := moves.foldl tryAdvance c

/-- The moves that are not refused, if the cursor makes one after the other. -/
def accepted (c : Cursor) : List Nat → List Nat
  | [] => []
  | n :: moves => if (c.advance? n).isSome then n :: (c.tryAdvance n).accepted moves else c.accepted moves

/-- The cursor cuts the text in two, and `front` is the part before it. -/
structure Divides (c : Cursor) (front source : List Char) : Prop where
  source : front ++ c.remainder = source
  offset : byteLength front = c.offset

/-- The cursor cuts the text after `front`, and counts its characters. -/
structure StandsAfter (c : Cursor) (front source : List Char) : Prop extends c.Divides front source where
  column : front.length = c.column

theorem standsAfter_ofString (source : String) : (ofString source).StandsAfter [] source.toList := ⟨⟨rfl, rfl⟩, rfl⟩

/-- A move passes some characters that have the bytes asked for. -/
theorem advance?_eq_some_iff (c d : Cursor) (n : Nat) : c.advance? n = some d ↔ ∃ passed,
    passed ++ d.remainder = c.remainder ∧ byteLength passed = n ∧ d.column = c.column + passed.length ∧
      d.offset = c.offset + n := by
  rw [advance?, Option.map_eq_some_iff]
  constructor
  · rintro ⟨p, hp, rfl⟩
    obtain ⟨htext, hbytes⟩ := (splitBytes?_eq_some_iff _ _ _).1 hp
    exact ⟨p.1, htext, hbytes, rfl, rfl⟩
  · rintro ⟨passed, htext, hbytes, hcolumn, hoffset⟩
    refine ⟨(passed, d.remainder), (splitBytes?_eq_some_iff _ _ _).2 ⟨htext, hbytes⟩, ?_⟩
    rw [← hcolumn, ← hoffset]

theorem advance?_of_append {c : Cursor} {passed rest : List Char} (h : c.remainder = passed ++ rest) :
    c.advance? (byteLength passed) = some ⟨rest, c.column + passed.length, c.offset + byteLength passed⟩ :=
  (advance?_eq_some_iff _ _ _).2 ⟨passed, h.symm, rfl, rfl, rfl⟩

/-! ## Which moves are taken -/

section

variable {c d : Cursor} {front source : List Char}

theorem Divides.splitBytes? (h : c.Divides front source) : splitBytes? c.offset source = some (front, c.remainder) :=
  (splitBytes?_eq_some_iff _ _ _).2 ⟨h.source, h.offset⟩

theorem Divides.of_passed (h : c.Divides front source) {passed : List Char}
    (remainder : passed ++ d.remainder = c.remainder) (offset : d.offset = c.offset + byteLength passed) :
    d.Divides (front ++ passed) source where
  source := by rw [List.append_assoc, remainder, h.source]
  offset := by rw [byteLength_append, h.offset, offset]

/-- A move is taken exactly if a part at the front of the text has as many bytes as the cursor has passed and is to
pass. -/
theorem Divides.isSome_advance?_iff (h : c.Divides front source) (n : Nat) : (c.advance? n).isSome = true ↔
    ∃ xs ys, source = xs ++ ys ∧ byteLength xs = c.offset + n := by
  rw [Option.isSome_iff_exists]
  constructor
  · rintro ⟨d, hd⟩
    obtain ⟨passed, hremainder, rfl, -, hoffset⟩ := (advance?_eq_some_iff _ _ _).1 hd
    have hdivides := h.of_passed hremainder hoffset
    exact ⟨front ++ passed, d.remainder, hdivides.source.symm, hdivides.offset.trans hoffset⟩
  · rintro ⟨xs, ys, hsource, hbytes⟩
    -- the part reaches beyond the cursor, or it has no bytes more than what the cursor has passed
    rw [← h.source] at hsource
    rcases List.append_eq_append_iff.1 hsource with ⟨passed, rfl, hremainder⟩ | ⟨back, rfl, -⟩
    · rw [byteLength_append, h.offset] at hbytes
      obtain rfl : byteLength passed = n := Nat.add_left_cancel hbytes
      exact ⟨_, advance?_of_append hremainder⟩
    · have hfront := h.offset
      rw [byteLength_append, hbytes] at hfront
      obtain rfl : n = 0 := by omega
      have hstay : c.remainder = [] ++ c.remainder := rfl
      exact ⟨_, advance?_of_append hstay⟩

theorem atEnd_iff (c : Cursor) : c.atEnd = true ↔ c.remainder = [] := List.isEmpty_iff

/-- At the end the cursor has passed all bytes of the text. -/
theorem Divides.atEnd_iff_le (h : c.Divides front source) : c.atEnd = true ↔ byteLength source ≤ c.offset := by
  rw [atEnd_iff, ← byteLength_eq_zero_iff, ← h.source, byteLength_append, h.offset]
  omega

/-! ## Any moves -/

theorem tryAdvance_of_refused {n : Nat} (h : ¬ (c.advance? n).isSome = true) : c.tryAdvance n = c := by
  rw [tryAdvance, Option.not_isSome_iff_eq_none.1 h, Option.getD_none]

theorem StandsAfter.tryAdvance (h : c.StandsAfter front source) (n : Nat) :
    ∃ front, (c.tryAdvance n).StandsAfter front source := by
  rw [Cursor.tryAdvance]
  cases hd : c.advance? n with
  | none => exact ⟨front, h⟩
  | some d =>
    obtain ⟨passed, hremainder, rfl, hcolumn, hoffset⟩ := (advance?_eq_some_iff _ _ _).1 hd
    refine ⟨front ++ passed, h.toDivides.of_passed hremainder hoffset, ?_⟩
    rw [List.length_append, h.column]
    exact hcolumn.symm

theorem StandsAfter.tryAdvances (h : c.StandsAfter front source) (moves : List Nat) :
    ∃ front, (c.tryAdvances moves).StandsAfter front source := by
  induction moves generalizing c front with
  | nil => exact ⟨front, h⟩
  | cons n moves ih =>
    obtain ⟨front, hnext⟩ := h.tryAdvance n
    exact ih hnext

/-- The offset grows by the moves that are taken. -/
theorem offset_tryAdvances (c : Cursor) (moves : List Nat) :
    (c.tryAdvances moves).offset = c.offset + (c.accepted moves).sum := by
  induction moves generalizing c with
  | nil => rfl
  | cons n moves ih =>
    show ((c.tryAdvance n).tryAdvances moves).offset = _
    rw [ih, accepted]
    split
    · next h =>
      obtain ⟨d, hd⟩ := Option.isSome_iff_exists.1 h
      obtain ⟨-, -, -, -, hoffset⟩ := (advance?_eq_some_iff _ _ _).1 hd
      rw [tryAdvance, hd, Option.getD_some, hoffset, List.sum_cons, Nat.add_assoc]
    · next h => rw [tryAdvance_of_refused h]

example : ((ofString "é=").tryAdvances [1, 2, 5, 1]).offset = 3 := by decide +kernel

end

end Cursor

end ExprLang.Text
