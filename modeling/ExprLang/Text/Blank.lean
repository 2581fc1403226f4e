/-!
# Blank characters

`isBlank` is the Unicode property White_Space. It is the one notion of white space of this library: between
tokens, and at the two ends of a line that is shown.

* `blankRanges` : the property as closed ranges of code points;
* `isGap` : the blanks that do not end a line;
* `trimEndWhile` : drops the last characters of a text as long as they satisfy a test.
-/

namespace ExprLang.Text

def inRanges (ranges : List (Nat × Nat)) (n : Nat) : Bool :=
  ranges.any fun r => r.1 ≤ n && n ≤ r.2

/-- The code points with the property White_Space, as closed ranges, ascending and apart. -/
def blankRanges : List (Nat × Nat) :=
  [(0x09, 0x0D), (0x20, 0x20), (0x85, 0x85), (0xA0, 0xA0), (0x1680, 0x1680), (0x2000, 0x200A),
   (0x2028, 0x2029), (0x202F, 0x202F), (0x205F, 0x205F), (0x3000, 0x3000)]

/-- Whether the character is white space. -/
def isBlank (c : Char) : Bool := inRanges blankRanges c.toNat

def isGap (c : Char) : Bool := isBlank c && c != '\n'

/-- The text without its longest run of last characters that satisfy `p`. -/
def trimEndWhile {α : Type} (p : α → Bool) (l : List α) : List α := (l.reverse.dropWhile p).reverse

/-! ## Basic facts -/

theorem inRanges_eq_false {ranges : List (Nat × Nat)} {n : Nat} (bound : Nat)
    (above : ranges.all (bound ≤ ·.1) = true) (h : n < bound) : inRanges ranges n = false := by
  rw [inRanges, List.any_eq_false]
  intro r hr
  have hlow : bound ≤ r.1 := of_decide_eq_true (List.all_eq_true.1 above r hr)
  simp only [Bool.and_eq_true, decide_eq_true_eq]
  omega

theorem isBlank_newline : isBlank '\n' = true := by decide

theorem isBlank_space : isBlank ' ' = true := by decide

@[simp] theorem isGap_newline : isGap '\n' = false := by decide

theorem isGap_iff (c : Char) : isGap c = true ↔ isBlank c = true ∧ c ≠ '\n' := by
  simp [isGap]

theorem trimEndWhile_of_all {α : Type} (p : α → Bool) (xs ys : List α) (h : ∀ y ∈ ys, p y = true) :
    trimEndWhile p (xs ++ ys) = trimEndWhile p xs := by
  rw [trimEndWhile, List.reverse_append, List.dropWhile_append_of_pos fun y hy => h y (List.mem_reverse.1 hy)]
  rfl

theorem trimEndWhile_append_cons {α : Type} (p : α → Bool) (xs ys : List α) (x : α) (h : p x = false) :
    trimEndWhile p (xs ++ x :: ys) = xs ++ x :: trimEndWhile p ys := by
  have hx : ¬ p x = true := by rw [h]; exact Bool.false_ne_true
  rw [trimEndWhile, List.reverse_append, List.reverse_cons, List.append_assoc, List.singleton_append,
    List.dropWhile_append]
  split
  · next hnone =>
    rw [List.dropWhile_cons_of_neg hx, trimEndWhile, List.isEmpty_iff.1 hnone, List.reverse_cons, List.reverse_reverse,
      List.reverse_nil]
  · rw [List.reverse_append, List.reverse_cons, List.reverse_reverse, List.append_assoc]
    rfl

end ExprLang.Text
