/-!
# A cursor over a text, moved by bytes

A `Cursor` stands between two characters of a text. It moves forward by a number of UTF-8 bytes, and only to a place
between two characters.

* `splitBytes?` : splits a text after a number of bytes;
* `Cursor.advance?` : moves the cursor.
-/

namespace ExprLang.Text

def byteLength : List Char → Nat
  | [] => 0
  | c :: cs => c.utf8Size + byteLength cs

/-- Splits a text after `n` bytes, or gives `none` if that is inside a character or past the end. -/
def splitBytes? : Nat → List Char → Option (List Char × List Char)
  | 0, cs => some ([], cs)
  | _ + 1, [] => none
  | n + 1, c :: cs =>
    if c.utf8Size ≤ n + 1 then (splitBytes? (n + 1 - c.utf8Size) cs).map fun p => (c :: p.1, p.2) else none

/-- A place in a text: what comes after it, and the number of characters and of bytes passed. -/
structure Cursor where
  remainder : List Char
  column : Nat := 0
  offset : Nat := 0
  deriving DecidableEq, Repr

def Cursor.ofString (source : String) : Cursor where
  remainder := source.toList

/-- Moves past `n` bytes, or gives `none` if no character ends there. -/
def Cursor.advance? (c : Cursor) (n : Nat) : Option Cursor :=
  (splitBytes? n c.remainder).map fun p =>
    { remainder := p.2, column := c.column + p.1.length, offset := c.offset + n }

def Cursor.atEnd (c : Cursor) : Bool := c.remainder.isEmpty

/-! ## Basic facts -/

theorem byteLength_append (cs ds : List Char) : byteLength (cs ++ ds) = byteLength cs + byteLength ds := by
  induction cs with
  | nil => simp [byteLength]
  | cons c cs ih => simp [byteLength, ih, Nat.add_assoc]

/-- A split is a cut of the text whose first part has the wanted number of bytes. -/
theorem splitBytes?_eq_some_iff (n : Nat) (cs : List Char) (p : List Char × List Char) :
    splitBytes? n cs = some p ↔ p.1 ++ p.2 = cs ∧ byteLength p.1 = n := by
  obtain ⟨xs, ys⟩ := p
  fun_induction splitBytes? n cs generalizing xs ys with
  | case1 cs =>
    constructor
    · rintro h; cases h; simp [byteLength]
    · rintro ⟨rfl, h⟩
      cases xs with
      | nil => rfl
      | cons x xs => have := x.utf8Size_pos; simp [byteLength] at h; omega
  | case2 n =>
    simp only [reduceCtorEq, false_iff, not_and]
    intro h; simp at h; simp [h.1, byteLength]
  | case3 n c cs hle ih =>
    constructor
    · intro h
      obtain ⟨q, hq, he⟩ := Option.map_eq_some_iff.1 h
      cases he
      obtain ⟨rfl, hb⟩ := (ih q.1 q.2).1 hq
      refine ⟨rfl, ?_⟩
      simp [byteLength] at hb ⊢; omega
    · rintro ⟨h, hb⟩
      cases xs with
      | nil => simp [byteLength] at hb
      | cons x xs =>
        simp only [List.cons_append, List.cons.injEq] at h
        obtain ⟨rfl, rfl⟩ := h
        have : splitBytes? (n + 1 - x.utf8Size) (xs ++ ys) = some (xs, ys) :=
          (ih xs ys).2 ⟨rfl, by simp [byteLength] at hb ⊢; omega⟩
        simp [this]
  | case4 n c cs hle =>
    simp only [reduceCtorEq, false_iff, not_and]
    intro h
    cases xs with
    | nil => simp [byteLength]
    | cons x xs =>
      simp only [List.cons_append, List.cons.injEq] at h
      obtain ⟨rfl, -⟩ := h
      simp [byteLength]; omega

end ExprLang.Text
