import ExprLang.Lexeme
import ExprLang.Token.Basic

/-!
# Block layout

Indentation makes blocks. A line that is wider than the line before it opens one block; a line that is narrower
closes the blocks of a greater width. A line may go back to a width that no block has; then no block opens.

* `Layout` : the widths of the open blocks, and the width of the last line;
* `Layout.marks`, `Layout.move` : the blocks that a line opens or closes, and the layout after it;
* `Layout.Ordered` : the open blocks grow inwards, no wider than the last line; `ordered_move`.
-/

namespace ExprLang

/-- The widths of the open blocks, the innermost first, and the width of the last line. -/
structure Layout where
  blocks : List Nat := []
  width : Nat := 0
  deriving DecidableEq, Repr

namespace Layout

/-- The width of the line that starts with the lexemes `ls`: the number of spaces at its front. -/
def widthOf (ls : List Lexeme) : Nat := (ls.head?.map fun l => (l.text.takeWhile (· == ' ')).length).getD 0

/-- Whether the line that starts with the lexemes `ls` holds something other than white space and a comment. -/
def isSignificant (ls : List Lexeme) : Bool :=
  match ls.dropWhile (·.shape == .gap) with
  | [] => false
  | l :: _ => l.shape != .newline && l.shape != .comment

def marks (l : Layout) (w : Nat) : List Token.Kind :=
  if l.width < w then [.indent] else (l.blocks.takeWhile (w < ·)).map fun _ => .dedent

def move (l : Layout) (w : Nat) : Layout where
  blocks := if l.width < w then w :: l.blocks else l.blocks.dropWhile (w < ·)
  width := w

def closing (l : Layout) : List Token.Kind := l.blocks.map fun _ => .dedent

/-- The open blocks grow strictly inwards, and none is wider than the last line. -/
def Ordered (l : Layout) : Prop := ((l.width + 1) :: l.blocks).Pairwise (· > ·)

/-! ## Basic facts -/

theorem ordered_empty : ({} : Layout).Ordered := by simp [Ordered]

/-- Every line keeps the blocks in order. -/
theorem ordered_move (l : Layout) (w : Nat) (h : l.Ordered) : (l.move w).Ordered := by
  obtain ⟨hle, hp⟩ := List.pairwise_cons.1 h
  refine List.pairwise_cons.2 ?_
  by_cases hw : l.width < w
  · simp only [move, hw, if_true, List.mem_cons, List.pairwise_cons]
    refine ⟨?_, fun b hb => ?_, hp⟩
    · rintro b (rfl | hb)
      · exact Nat.lt_succ_self _
      · have := hle b hb; omega
    · have := hle b hb; omega
  · simp only [move, hw, if_false]
    refine ⟨fun b hb => ?_, hp.sublist (List.dropWhile_sublist _)⟩
    have hs : (l.blocks.dropWhile (w < ·)).Pairwise (· > ·) := hp.sublist (List.dropWhile_sublist _)
    cases hd : l.blocks.dropWhile (w < ·) with
    | nil => simp [hd] at hb
    | cons d ds =>
      have hnot : ¬ w < d := by
        have := List.head?_dropWhile_not (fun b => decide (w < b)) l.blocks
        simpa [hd] using this
      rw [hd] at hb hs
      rcases List.mem_cons.1 hb with rfl | hb
      · omega
      · have := (List.pairwise_cons.1 hs).1 b hb; omega

end Layout

end ExprLang
