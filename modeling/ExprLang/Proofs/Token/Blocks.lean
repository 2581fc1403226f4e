import ExprLang.Proofs.Token.Content

/-!
# The blocks of an outline

An outline says of each line whether it counts, and how wide it is. It fixes which lines open a block, and which line
closes it, with no stack of open blocks: a block is open until the first later line that is narrower than its first.

* `Outline.opens`, `Outline.stillOpen`, `Outline.closes` : the block that a line opens, and where it ends;
* `Outline.marksBefore` : the marks in front of a line;
* `Outline.layoutAt` : the layout that the lines before a line leave, `layoutAt_succ`, `ordered_layoutAt`;
* `marks_layoutAt`, `closing_layoutAt` : its marks are those of the outline.
-/

namespace ExprLang

/-- The lines of a text, by number, as the blocks see them: whether a line counts, and how far it is indented. -/
structure Outline where
  significant : Nat → Bool
  width : Nat → Nat

namespace Outline

/-- The width of the last significant line before line `n`, or 0 if there is none. -/
def widthBefore (o : Outline) : Nat → Nat
  | 0 => 0
  | n + 1 => if o.significant n then o.width n else o.widthBefore n

variable (o : Outline)

def opens (n : Nat) : Bool := o.significant n && decide (o.widthBefore n < o.width n)

/-- Whether line `m` opens a block, and no significant line after it and before line `n` is narrower. -/
def stillOpen (m n : Nat) : Bool :=
  o.opens m && decide (∀ k < n, m < k → o.significant k = true → o.width m ≤ o.width k)

/-- Whether line `n` closes the block that line `m` opens: it is the first significant line that is narrower. -/
def closes (m n : Nat) : Bool := o.stillOpen m n && o.significant n && decide (o.width n < o.width m)

/-- The marks in front of line `n`: one for each block that the line closes, and one for the block that it opens. -/
def marksBefore (n : Nat) : List Token :=
  ((List.range n).filter (o.closes · n)).map (fun _ => Scan.mark ⟨n, o.width n⟩ .dedent) ++
    if o.opens n then [Scan.mark ⟨n, o.width n⟩ .indent] else []

def marksAtEnd (n : Nat) (p : Position) : List Token :=
  ((List.range (n + 1)).filter (o.stillOpen · (n + 1))).map fun _ => Scan.mark p .dedent

/-- The layout that the lines before line `n` leave. -/
def layoutAt (n : Nat) : Layout where
  blocks := ((List.range n).filter (o.stillOpen · n)).reverse.map o.width
  width := o.widthBefore n

/-! ## Stacks in order -/

theorem le_of_mem_dropWhile (bs : List Nat) (w : Nat) (h : bs.Pairwise (· > ·)) :
    ∀ b ∈ bs.dropWhile (w < ·), b ≤ w := by
  induction bs with
  | nil => simp
  | cons b bs ih =>
    obtain ⟨hb, hbs⟩ := List.pairwise_cons.1 h
    by_cases hw : w < b
    · rw [List.dropWhile_cons_of_pos (by simpa using hw)]
      exact ih hbs
    · rw [List.dropWhile_cons_of_neg (by simpa using hw)]
      intro c hc
      rcases List.mem_cons.1 hc with rfl | hc
      · omega
      · have := hb c hc
        omega

/-- A stack in order is cut into the blocks that are wider and those that are not. -/
theorem takeWhile_and_dropWhile (bs : List Nat) (w : Nat) (h : bs.Pairwise (· > ·)) :
    bs.takeWhile (w < ·) = bs.filter (w < ·) ∧ bs.dropWhile (w < ·) = bs.filter (· ≤ w) := by
  have wide : ∀ b ∈ bs.takeWhile (w < ·), w < b :=
    fun b hb => of_decide_eq_true (List.all_eq_true.1 List.all_takeWhile b hb)
  have narrow := le_of_mem_dropWhile bs w h
  have hcut := List.takeWhile_append_dropWhile (p := (w < ·)) (l := bs)
  generalize bs.takeWhile (w < ·) = hi at *
  generalize bs.dropWhile (w < ·) = lo at *
  subst hcut
  rw [List.filter_append, List.filter_append]
  constructor
  · rw [List.filter_eq_self.2 fun b hb => decide_eq_true (wide b hb),
      List.filter_eq_nil_iff.2 fun b hb => by have := narrow b hb; simpa using this, List.append_nil]
  · rw [List.filter_eq_nil_iff.2 fun b hb => by have := wide b hb; simpa using this,
      List.filter_eq_self.2 fun b hb => decide_eq_true (narrow b hb), List.nil_append]

/-! ## One line -/

theorem stillOpen_self (n : Nat) : o.stillOpen n (n + 1) = o.opens n := by
  have h : ∀ k < n + 1, n < k → o.significant k = true → o.width n ≤ o.width k := fun k _ _ => by omega
  rw [stillOpen, decide_eq_true h, Bool.and_true]

theorem stillOpen_succ (m n : Nat) (h : m < n) :
    o.stillOpen m (n + 1) = (o.stillOpen m n && !(o.significant n && decide (o.width n < o.width m))) := by
  rw [Bool.eq_iff_iff]
  simp only [stillOpen, Bool.and_eq_true, decide_eq_true_eq, Bool.not_eq_true', Bool.and_eq_false_iff,
    decide_eq_false_iff_not, Nat.not_lt]
  constructor
  · rintro ⟨ho, hk⟩
    refine ⟨⟨ho, fun k hkn => hk k (Nat.lt_succ_of_lt hkn)⟩, ?_⟩
    cases hs : o.significant n with
    | false => exact Or.inl rfl
    | true => exact Or.inr (hk n (Nat.lt_succ_self n) h hs)
  · rintro ⟨⟨ho, hk⟩, hn⟩
    refine ⟨ho, fun k hkn hmk hs => ?_⟩
    rcases Nat.lt_succ_iff_lt_or_eq.1 hkn with hkn | rfl
    · exact hk k hkn hmk hs
    · rcases hn with hn | hn
      · rw [hs] at hn; cases hn
      · exact hn

theorem mem_blocks_layoutAt (m n : Nat) (h : m < n) (ho : o.stillOpen m n = true) :
    o.width m ∈ (o.layoutAt n).blocks :=
  List.mem_map_of_mem (List.mem_reverse.2 (List.mem_filter.2 ⟨List.mem_range.2 h, ho⟩))

theorem width_le_of_stillOpen (m n : Nat) (h : m < n) (ordered : (o.layoutAt n).Ordered)
    (ho : o.stillOpen m n = true) : o.width m ≤ o.widthBefore n :=
  Nat.le_of_lt_succ ((List.pairwise_cons.1 ordered).1 _ (o.mem_blocks_layoutAt m n h ho))

/-- The blocks after a line: the one that it opens, and those before that it does not close. -/
theorem blocks_layoutAt_succ (n : Nat) : (o.layoutAt (n + 1)).blocks =
    (if o.opens n then [o.width n] else []) ++
      (((List.range n).filter (o.stillOpen · n)).filter
        fun m => !(o.significant n && decide (o.width n < o.width m))).reverse.map o.width := by
  have hfilter : (List.range n).filter (o.stillOpen · (n + 1)) =
      ((List.range n).filter (o.stillOpen · n)).filter
        fun m => !(o.significant n && decide (o.width n < o.width m)) := by
    rw [List.filter_filter]
    apply List.filter_congr
    intro m hm
    rw [o.stillOpen_succ m n (List.mem_range.1 hm), Bool.and_comm]
  rw [layoutAt, List.range_succ, List.filter_append, hfilter, List.reverse_append, List.map_append]
  cases ho : o.opens n <;> simp [o.stillOpen_self, ho]

theorem layoutAt_succ_of_not_significant (n : Nat) (h : o.significant n = false) :
    o.layoutAt (n + 1) = o.layoutAt n := by
  have hb : (o.layoutAt (n + 1)).blocks = (o.layoutAt n).blocks := by
    rw [o.blocks_layoutAt_succ n, List.filter_eq_self.2 fun m _ => by rw [h]; rfl, opens, h]
    rfl
  have hw : o.widthBefore (n + 1) = o.widthBefore n := by rw [widthBefore, h]; rfl
  calc o.layoutAt (n + 1) = ⟨(o.layoutAt (n + 1)).blocks, o.widthBefore (n + 1)⟩ := rfl
    _ = o.layoutAt n := by rw [hb, hw]; rfl

theorem blocks_layoutAt_succ_of_significant (n : Nat) (h : o.significant n = true) :
    (o.layoutAt (n + 1)).blocks = (if o.widthBefore n < o.width n then [o.width n] else []) ++
      (o.layoutAt n).blocks.filter (· ≤ o.width n) := by
  have hkept : ((List.range n).filter (o.stillOpen · n)).filter
        (fun m => !(o.significant n && decide (o.width n < o.width m))) =
      ((List.range n).filter (o.stillOpen · n)).filter fun m => decide (o.width m ≤ o.width n) := by
    apply List.filter_congr
    intro m _
    rw [h, Bool.true_and, ← decide_not]
    simp only [Nat.not_lt]
  have hopens : (if o.opens n then [o.width n] else []) =
      if o.widthBefore n < o.width n then [o.width n] else [] := by
    simp only [opens, h, Bool.true_and, decide_eq_true_eq]
  rw [o.blocks_layoutAt_succ n, hkept, hopens, ← List.filter_reverse, layoutAt, List.filter_map]
  rfl

/-- A line that counts moves the layout to its width. -/
theorem layoutAt_succ (n : Nat) (ordered : (o.layoutAt n).Ordered) (h : o.significant n = true) :
    o.layoutAt (n + 1) = (o.layoutAt n).move (o.width n) := by
  obtain ⟨hle, hp⟩ := List.pairwise_cons.1 ordered
  have hwidth : (o.layoutAt n).width = o.widthBefore n := rfl
  have hb : (o.layoutAt (n + 1)).blocks = ((o.layoutAt n).move (o.width n)).blocks := by
    rw [o.blocks_layoutAt_succ_of_significant n h, Layout.move]
    by_cases hlt : o.widthBefore n < o.width n
    · have hall : (o.layoutAt n).blocks.filter (fun b => decide (b ≤ o.width n)) = (o.layoutAt n).blocks := by
        rw [List.filter_eq_self]
        intro b hbm
        have := hle b hbm
        rw [decide_eq_true_eq]
        omega
      rw [hall, hwidth, if_pos hlt, if_pos hlt]
      rfl
    · rw [hwidth, if_neg hlt, if_neg hlt, (takeWhile_and_dropWhile _ _ hp).2]
      rfl
  have hw : o.widthBefore (n + 1) = o.width n := by rw [widthBefore, h]; rfl
  calc o.layoutAt (n + 1) = ⟨(o.layoutAt (n + 1)).blocks, o.widthBefore (n + 1)⟩ := rfl
    _ = (o.layoutAt n).move (o.width n) := by rw [hb, hw]; rfl

/-- Whatever the lines are, the open blocks stay in order. -/
theorem ordered_layoutAt (n : Nat) : (o.layoutAt n).Ordered := by
  induction n with
  | zero => exact Layout.ordered_empty
  | succ n ih =>
    cases h : o.significant n with
    | false => rw [o.layoutAt_succ_of_not_significant n h]; exact ih
    | true => rw [o.layoutAt_succ n ih h]; exact Layout.ordered_move _ _ ih

theorem layoutAt_of_not_significant (a b : Nat) (hab : a ≤ b)
    (h : ∀ n, a ≤ n → n < b → o.significant n = false) : o.layoutAt b = o.layoutAt a := by
  induction hab with
  | refl => rfl
  | @step b hab ih =>
    rw [o.layoutAt_succ_of_not_significant b (h b hab (Nat.lt_succ_self b))]
    exact ih fun n hn hnb => h n hn (Nat.lt_succ_of_lt hnb)

/-! ## Marks -/

theorem marksBefore_of_not_significant (n : Nat) (h : o.significant n = false) : o.marksBefore n = [] := by
  simp [marksBefore, closes, opens, h]

/-- The marks of the layout in front of a line that counts are those of the outline. -/
theorem marks_layoutAt (n : Nat) (h : o.significant n = true) :
    ((o.layoutAt n).marks (o.width n)).map (Scan.mark ⟨n, o.width n⟩) = o.marksBefore n := by
  by_cases hlt : o.widthBefore n < o.width n
  · have hopens : o.opens n = true := by rw [opens, h, decide_eq_true hlt]; rfl
    have hnone : (List.range n).filter (o.closes · n) = [] := by
      rw [List.filter_eq_nil_iff]
      intro m hm hc
      simp only [closes, Bool.and_eq_true, decide_eq_true_eq] at hc
      have := o.width_le_of_stillOpen m n (List.mem_range.1 hm) (o.ordered_layoutAt n) hc.1.1
      omega
    rw [Layout.marks, if_pos (show (o.layoutAt n).width < o.width n from hlt), marksBefore, hnone, hopens]
    rfl
  · have hopens : o.opens n = false := by rw [opens, h, decide_eq_false hlt]; rfl
    have hclosed : (o.layoutAt n).blocks.filter (o.width n < ·) =
        ((List.range n).filter (o.closes · n)).reverse.map o.width := by
      have hcloses : (List.range n).filter (o.closes · n) =
          ((List.range n).filter (o.stillOpen · n)).filter fun m => decide (o.width n < o.width m) := by
        rw [List.filter_filter]
        apply List.filter_congr
        intro m _
        rw [closes, h, Bool.and_true, Bool.and_comm]
      rw [hcloses, ← List.filter_reverse, layoutAt, List.filter_map]
      rfl
    rw [Layout.marks, if_neg (show ¬ (o.layoutAt n).width < o.width n from hlt),
      (takeWhile_and_dropWhile _ _ (List.pairwise_cons.1 (o.ordered_layoutAt n)).2).1, hclosed, marksBefore, hopens]
    simp [List.map_const', Function.comp_def]

theorem closing_layoutAt (n : Nat) (p : Position) :
    (o.layoutAt (n + 1)).closing.map (Scan.mark p) = o.marksAtEnd n p := by
  simp [Layout.closing, layoutAt, marksAtEnd, List.map_const', Function.comp_def]

end Outline

end ExprLang
