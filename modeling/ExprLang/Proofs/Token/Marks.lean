import Mathlib.Data.List.Basic
import ExprLang.Proofs.Token.Lines
import ExprLang.Proofs.Token.Spelling

/-!
# The marks of a text

The tokens of a text, line by line: in front of the tokens of a line stand the marks that its outline asks for, and no
others.

* `Scan.nextLine` : the first line whose marks are still to come; the layout of a scan is that of the outline there;
* `filter_tokens` : the tokens of a scan that stand on one line;
* `eq_flatMap_filter_line` : a list in the order of its lines falls apart into them;
* `Balanced` : a list of tokens that closes the blocks that it opens, and no others;
* `tokenize_marks_blocks` : the marks of a text are those of its outline.
-/

namespace ExprLang

open Lexeme (textOf tokensFrom)

/-- The first line whose marks are still to come. -/
def Scan.nextLine (s : Scan) : Nat := if s.atLineStart then s.position.line else s.position.line + 1

/-! ## One lexeme -/

section

variable {source : String} {s : Scan} {done ls : List Lexeme}

theorem Scan.line_le_nextLine (s : Scan) : s.position.line ≤ s.nextLine := by
  unfold nextLine
  split <;> omega

theorem Scan.nextLine_le (s : Scan) : s.nextLine ≤ s.position.line + 1 := by
  unfold nextLine
  split <;> omega

theorem Scan.atLineStart_of_nextLine_le (s : Scan) (h : s.nextLine ≤ s.position.line) : s.atLineStart = true := by
  unfold nextLine at h
  split at h
  · assumption
  · omega

theorem Scan.lt_nextLine_step (s : Scan) (l : Lexeme) (ls : List Lexeme) (fits : ∃ rest, l.Fits rest) :
    s.position.line < (s.step l ls).nextLine := by
  have hline : (s.step l ls).position.line = s.position.line + l.text.count '\n' := Position.line_after _ _
  obtain ⟨rest, fits⟩ := fits
  unfold nextLine
  split
  · next hl =>
    rw [hline, Lexeme.text_of_newline l rest fits (eq_of_beq hl)]
    exact Nat.lt_succ_self _
  · rw [hline]
    omega

theorem fits_of_append {l : Lexeme} (h : lexemes source.toList = done ++ l :: ls) : ∃ rest, l.Fits rest := by
  obtain ⟨-, hcut⟩ := lexemes_of_append _ _ _ h
  obtain ⟨rest, -, fits, -⟩ := fits_of_lexemes _ _ _ hcut
  exact ⟨rest, fits⟩

/-- The lines that a lexeme leaves behind do not count, but for the line where it starts. -/
theorem not_significant_of_skipped {l : Lexeme} (h : lexemes source.toList = done ++ l :: ls)
    (reached : s.Reached done) (n : Nat) (low : s.position.line < n) (high : n < (s.step l ls).nextLine) :
    (outlineOf source).significant n = false := by
  obtain ⟨rest, fits⟩ := fits_of_append h
  have hline : (s.step l ls).position.line = s.position.line + l.text.count '\n' := Position.line_after _ _
  by_cases hl : l.shape = .newline
  · have hstart : (s.step l ls).atLineStart = true := beq_iff_eq.2 hl
    rw [Scan.nextLine, if_pos hstart, hline, Lexeme.text_of_newline l rest fits hl] at high
    exact absurd high (Nat.not_lt.2 low)
  · have := (s.step l ls).nextLine_le
    exact not_significant_of_crossed h reached hl n low (Nat.le_of_lt_succ (Nat.lt_of_lt_of_le high this))

/-- The marks in front of a lexeme are those of the line, if one starts. -/
theorem marks_of_layout (h : lexemes source.toList = done ++ ls) (reached : s.Reached done)
    (layout : s.layout = (outlineOf source).layoutAt s.nextLine) :
    s.marks ls = if s.atLineStart then (outlineOf source).marksBefore s.position.line else [] := by
  cases hs : s.atLineStart with
  | false => simp [Scan.marks, Scan.startsLine, hs]
  | true =>
    have hsig := significant_of_lineStart h reached hs
    rw [Scan.nextLine, if_pos hs] at layout
    unfold Scan.marks
    split
    · next hstarts =>
      rw [hstarts] at hsig
      rw [layout, ← width_of_lineStart h reached hs, Outline.marks_layoutAt _ _ hsig]
      rfl
    · next hstarts =>
      rw [Bool.not_eq_true] at hstarts
      rw [hstarts] at hsig
      exact (Outline.marksBefore_of_not_significant _ _ hsig).symm

theorem layout_step {l : Lexeme} (h : lexemes source.toList = done ++ l :: ls) (reached : s.Reached done)
    (layout : s.layout = (outlineOf source).layoutAt s.nextLine) :
    (s.step l ls).layout = (outlineOf source).layoutAt (s.step l ls).nextLine := by
  have hskip : (outlineOf source).layoutAt (s.step l ls).nextLine =
      (outlineOf source).layoutAt (s.position.line + 1) :=
    Outline.layoutAt_of_not_significant _ _ _ (s.lt_nextLine_step l ls (fits_of_append h))
      fun n low high => not_significant_of_skipped h reached n low high
  rw [hskip, Scan.step]
  cases hs : s.atLineStart with
  | false =>
    rw [Scan.nextLine, hs] at layout
    simp [Scan.startsLine, hs, layout]
  | true =>
    have hsig := significant_of_lineStart h reached hs
    rw [Scan.nextLine, if_pos hs] at layout
    cases hstarts : s.startsLine (l :: ls) with
    | false =>
      rw [hstarts] at hsig
      simp [layout, Outline.layoutAt_succ_of_not_significant _ _ hsig]
    | true =>
      rw [hstarts] at hsig
      rw [Outline.layoutAt_succ _ _ (Outline.ordered_layoutAt _ _) hsig, width_of_lineStart h reached hs, ← layout]
      rfl

/-! ## The lexemes of a text -/

theorem not_significant_of_end (h : lexemes source.toList = done) (reached : s.Reached done) (n : Nat)
    (hn : s.nextLine ≤ n) : (outlineOf source).significant n = false := by
  by_cases hline : n = s.position.line
  · rw [hline] at hn ⊢
    have happ : lexemes source.toList = done ++ [] := by rw [List.append_nil, h]
    rw [significant_of_lineStart happ reached (s.atLineStart_of_nextLine_le hn)]
    simp [Scan.startsLine, Layout.isSignificant]
  · have hlast : s.position.line = 1 + source.toList.count '\n' := by
      rw [reached.position, ← h, textOf, flatMap_text_lexemes, Position.line_after]
      rfl
    have hlow := s.line_le_nextLine
    have hnone : Text.dropLines? (n - 1) source.toList = none := by
      rw [← Option.not_isSome_iff_eq_none, Text.dropLines?_isSome_iff]
      omega
    have hempty : physicalLine source.toList n = [] := by
      rw [physicalLine, hnone]
      rfl
    simp [outlineOf, hempty, holdsCode]

theorem Scan.line_of_mem_emit (s : Scan) (l : Lexeme) (ls : List Lexeme) (t : Token) (h : t ∈ s.emit l ls) :
    t.line = s.position.line := by
  rcases List.mem_append.1 h with h | h
  · unfold marks at h
    split at h
    · obtain ⟨k, -, rfl⟩ := List.mem_map.1 h
      rfl
    · cases h
  · rw [← (Lexeme.token?_eq_some l _ t (Option.mem_toList.1 h)).2.1]

theorem filter_line (ts : List Token) (a n : Nat) (h : ∀ t ∈ ts, t.line = a) :
    ts.filter (·.line == n) = if n = a then ts else [] := by
  split
  · next hn => exact List.filter_eq_self.2 fun t ht => by rw [h t ht, hn, beq_self_eq_true]
  · next hn => exact List.filter_eq_nil_iff.2 fun t ht => by rw [h t ht, beq_iff_eq]; exact Ne.symm hn

/-- The marks of a line come with the lexeme that starts it, or with a later one, or not at all. -/
theorem marksBefore_of_step {l : Lexeme} (n : Nat) (h : lexemes source.toList = done ++ l :: ls)
    (reached : s.Reached done) (layout : s.layout = (outlineOf source).layoutAt s.nextLine) :
    (if s.nextLine ≤ n then (outlineOf source).marksBefore n else []) =
      if n = s.position.line then s.marks (l :: ls)
      else if (s.step l ls).nextLine ≤ n then (outlineOf source).marksBefore n else [] := by
  have hlow := s.line_le_nextLine
  have hhigh := s.nextLine_le
  have hnext := s.lt_nextLine_step l ls (fits_of_append h)
  by_cases hline : n = s.position.line
  · rw [if_pos hline, hline, marks_of_layout h reached layout]
    unfold Scan.nextLine
    cases s.atLineStart with
    | true => simp
    | false => rw [if_neg Bool.false_ne_true, if_neg (by omega), if_neg Bool.false_ne_true]
  · rw [if_neg hline]
    by_cases hn : (s.step l ls).nextLine ≤ n
    · rw [if_pos hn, if_pos (by omega)]
    · rw [if_neg hn]
      split
      · exact Outline.marksBefore_of_not_significant _ _
          (not_significant_of_skipped h reached n (by omega) (Nat.lt_of_not_le hn))
      · rfl

/-- The tokens of a scan on one line: its marks, if they are still to come, and its content. -/
theorem filter_tokens (n : Nat) (h : lexemes source.toList = done ++ ls) (reached : s.Reached done)
    (layout : s.layout = (outlineOf source).layoutAt s.nextLine) :
    (s.tokens ls).filter (·.line == n) =
      (if s.nextLine ≤ n then (outlineOf source).marksBefore n else []) ++
        (tokensFrom s.position ls).filter (·.line == n) := by
  induction ls generalizing s done with
  | nil =>
    rw [List.append_nil] at h
    split
    · next hn =>
      rw [Outline.marksBefore_of_not_significant _ _ (not_significant_of_end h reached n hn)]
      rfl
    · rfl
  | cons l ls ih =>
    have happ := h.trans (List.append_cons done l ls)
    have hlater := ih happ (reached.step l ls) (layout_step h reached layout)
    have hnext := s.lt_nextLine_step l ls (fits_of_append h)
    have hemit := filter_line (s.emit l ls) s.position.line n (s.line_of_mem_emit l ls)
    have htoken := filter_line (l.token? s.position).toList s.position.line n
      fun t ht => s.line_of_mem_emit l ls t (List.mem_append_right _ ht)
    rw [Scan.tokens, tokensFrom, List.filter_append, List.filter_append, hlater, hemit, htoken,
      marksBefore_of_step n h reached layout]
    show _ ++ (_ ++ (tokensFrom (s.position.after l.text) ls).filter _) = _
    -- the line of the lexeme takes its marks here, any other line from what follows
    by_cases hline : n = s.position.line
    · rw [if_pos hline, if_pos hline, if_pos hline, if_neg (by omega), Scan.emit, List.nil_append, List.append_assoc]
    · rw [if_neg hline, if_neg hline, if_neg hline]
      rfl

/-- What starts a line that counts has a token on it. -/
theorem exists_token_of_isSignificant (p : Position) (h : lexemes source.toList = done ++ ls)
    (hls : Layout.isSignificant ls = true) : ∃ t ∈ tokensFrom p ls, t.line = p.line := by
  induction ls generalizing done p with
  | nil => cases hls
  | cons l ls ih =>
    obtain ⟨rest, fits⟩ := fits_of_append h
    by_cases hgap : l.shape = .gap
    · have hnext : Layout.isSignificant ls = true := by
        rwa [Layout.isSignificant, List.dropWhile_cons_of_pos (by exact beq_iff_eq.2 hgap)] at hls
      have hline : (p.after l.text).line = p.line := by
        have hcount := List.count_eq_zero.2
          (Lexeme.notMem_newline_of_fits l rest fits (by rw [hgap]; decide) (by rw [hgap]; decide))
        rw [Position.line_after, hcount, Nat.add_zero]
      have happ := h.trans (List.append_cons done l ls)
      obtain ⟨t, ht, htl⟩ := ih (p.after l.text) happ hnext
      exact ⟨t, List.mem_append_right _ ht, htl.trans hline⟩
    · rw [Layout.isSignificant, List.dropWhile_cons_of_neg (by simpa using hgap)] at hls
      simp only [Bool.and_eq_true, bne_iff_ne] at hls
      obtain ⟨k, hk⟩ := Lexeme.exists_kind? hgap hls.1 hls.2
      refine ⟨{ toPosition := p, kind := k, text := String.ofList l.text }, ?_, rfl⟩
      rw [tokensFrom, Lexeme.token?, hk]
      exact List.mem_append_left _ (List.mem_singleton.2 rfl)

theorem exists_token_of_significant (n : Nat) (h : lexemes source.toList = done ++ ls) (reached : s.Reached done)
    (hn : s.nextLine ≤ n) (hsig : (outlineOf source).significant n = true) :
    ∃ t ∈ tokensFrom s.position ls, t.line = n := by
  induction ls generalizing s done with
  | nil =>
    rw [List.append_nil] at h
    rw [not_significant_of_end h reached n hn] at hsig
    cases hsig
  | cons l ls ih =>
    by_cases hline : n = s.position.line
    · subst hline
      rw [significant_of_lineStart h reached (s.atLineStart_of_nextLine_le hn)] at hsig
      exact exists_token_of_isSignificant _ h (Bool.and_eq_true_iff.1 hsig).2
    · have hlow := s.line_le_nextLine
      have hnext : (s.step l ls).nextLine ≤ n := by
        apply Nat.le_of_not_lt
        intro hlt
        rw [not_significant_of_skipped h reached n (by omega) hlt] at hsig
        cases hsig
      have happ := h.trans (List.append_cons done l ls)
      obtain ⟨t, ht, htl⟩ := ih happ (reached.step l ls) hnext
      exact ⟨t, List.mem_append_right _ ht, htl⟩

end

/-! ## Line after line -/

/-- A scan goes from line to line, and never back. -/
theorem Scan.pairwise_tokens (s : Scan) (ls : List Lexeme) :
    (s.tokens ls).Pairwise (·.line ≤ ·.line) ∧
      ∀ t ∈ s.tokens ls, s.position.line ≤ t.line ∧ t.line ≤ (s.last ls).position.line := by
  induction ls generalizing s with
  | nil => exact ⟨List.Pairwise.nil, fun t ht => by cases ht⟩
  | cons l ls ih =>
    obtain ⟨hsorted, hrange⟩ := ih (s.step l ls)
    have hemit := s.line_of_mem_emit l ls
    have hstep : s.position.line ≤ (s.step l ls).position.line := by
      show _ ≤ (s.position.after l.text).line
      rw [Position.line_after]
      omega
    have hlast : (s.step l ls).position.line ≤ (s.last (l :: ls)).position.line := by
      show _ ≤ ((s.step l ls).last ls).position.line
      rw [position_last, Position.line_after]
      omega
    constructor
    · refine List.pairwise_append.2 ⟨?_, hsorted, fun t ht u hu => ?_⟩
      · exact List.pairwise_of_forall_mem_list fun t ht u hu => by rw [hemit t ht, hemit u hu]
      · rw [hemit t ht]
        exact Nat.le_trans hstep (hrange u hu).1
    · intro t ht
      rcases List.mem_append.1 ht with ht | ht
      · rw [hemit t ht]
        exact ⟨Nat.le_refl _, Nat.le_trans hstep hlast⟩
      · exact ⟨Nat.le_trans hstep (hrange t ht).1, (hrange t ht).2⟩

theorem filter_line_append_filter_lt (ts : List Token) (a : Nat) (sorted : ts.Pairwise (·.line ≤ ·.line))
    (low : ∀ t ∈ ts, a ≤ t.line) :
    ts.filter (·.line == a) ++ ts.filter (fun t => decide (a < t.line)) = ts := by
  induction ts with
  | nil => rfl
  | cons t ts ih =>
    obtain ⟨ht, hts⟩ := List.pairwise_cons.1 sorted
    obtain ⟨hat, hlow⟩ := List.forall_mem_cons.1 low
    by_cases hline : t.line = a
    · rw [List.filter_cons_of_pos (by simpa using hline), List.filter_cons_of_neg (by simp [hline]), List.cons_append,
        ih hts hlow]
    · have hnone : (t :: ts).filter (·.line == a) = [] := by
        rw [List.filter_eq_nil_iff]
        intro u hu
        rcases List.mem_cons.1 hu with rfl | hu
        · simpa using hline
        · have := ht u hu
          rw [beq_iff_eq]
          omega
      have hall : (t :: ts).filter (fun t => decide (a < t.line)) = t :: ts := by
        rw [List.filter_eq_self]
        intro u hu
        rw [decide_eq_true_eq]
        rcases List.mem_cons.1 hu with rfl | hu
        · omega
        · have := ht u hu
          omega
      rw [hnone, hall]
      rfl

/-- A list in the order of its lines falls apart into them. -/
theorem eq_flatMap_filter_line (ts : List Token) (a n : Nat) (sorted : ts.Pairwise (·.line ≤ ·.line))
    (range : ∀ t ∈ ts, a ≤ t.line ∧ t.line < a + n) :
    (List.range' a n).flatMap (fun k => ts.filter (·.line == k)) = ts := by
  induction n generalizing a ts with
  | zero =>
    cases ts with
    | nil => rfl
    | cons t ts =>
      have := range t List.mem_cons_self
      omega
  | succ n ih =>
    have hlater := ih (ts.filter fun t => decide (a < t.line)) (a + 1) (sorted.sublist List.filter_sublist) (by
      intro t ht
      obtain ⟨ht, hlt⟩ := List.mem_filter.1 ht
      have := range t ht
      rw [decide_eq_true_eq] at hlt
      omega)
    have hsame : (List.range' (a + 1) n).flatMap (fun k => (ts.filter fun t => decide (a < t.line)).filter (·.line == k)) =
        (List.range' (a + 1) n).flatMap fun k => ts.filter (·.line == k) := by
      apply List.flatMap_congr
      intro k hk
      rw [List.filter_filter]
      apply List.filter_congr
      intro t _
      obtain ⟨hk, -⟩ := List.mem_range'_1.1 hk
      by_cases htk : t.line = k
      · rw [htk, decide_eq_true (by omega), Bool.and_true]
      · rw [beq_false_of_ne htk, Bool.false_and]
    rw [List.range'_succ, List.flatMap_cons, ← hsame, hlater]
    exact filter_line_append_filter_lt ts a sorted fun t ht => (range t ht).1

/-! ## Balance -/

/-- The number of open blocks after a token, or `none` if it closes a block where none is open. -/
def blocksAfter (blocks : Nat) (t : Token) : Option Nat :=
  match t.kind, blocks with
  | .indent, n => some (n + 1)
  | .dedent, 0 => none
  | .dedent, n + 1 => some n
  | _, n => some n

/-- The tokens close the blocks that they open, each after it is opened, and no others. -/
def Balanced (ts : List Token) : Prop := ts.foldlM blocksAfter 0 = some 0

theorem blocksAfter_of_isContent (t : Token) (n : Nat) (h : t.isContent = true) : blocksAfter n t = some n := by
  unfold Token.isContent at h
  unfold blocksAfter
  cases hk : t.kind <;> simp_all

theorem foldlM_dedents (p : Position) (bs : List Nat) (n : Nat) :
    ((bs.map fun _ => Token.Kind.dedent).map (Scan.mark p)).foldlM blocksAfter (n + bs.length) = some n := by
  induction bs with
  | nil => rfl
  | cons b bs ih =>
    rw [List.length_cons, List.map_cons, List.map_cons, List.foldlM_cons]
    exact ih

theorem foldlM_marks (l : Layout) (w : Nat) (p : Position) :
    ((l.marks w).map (Scan.mark p)).foldlM blocksAfter l.blocks.length = some (l.move w).blocks.length := by
  unfold Layout.marks Layout.move
  by_cases hw : l.width < w
  · rw [if_pos hw, if_pos hw]
    rfl
  · have hlen : l.blocks.length = (l.blocks.dropWhile (w < ·)).length + (l.blocks.takeWhile (w < ·)).length := by
      rw [Nat.add_comm, ← List.length_append, List.takeWhile_append_dropWhile]
    rw [if_neg hw, if_neg hw, hlen]
    exact foldlM_dedents p _ _

theorem foldlM_emit (s : Scan) (l : Lexeme) (ls : List Lexeme) :
    (s.emit l ls).foldlM blocksAfter s.layout.blocks.length = some (s.step l ls).layout.blocks.length := by
  have hmarks : (s.marks (l :: ls)).foldlM blocksAfter s.layout.blocks.length =
      some (s.step l ls).layout.blocks.length := by
    unfold Scan.marks Scan.step
    split
    · exact foldlM_marks _ _ _
    · rfl
  have htoken : ∀ n, (l.token? s.position).toList.foldlM blocksAfter n = some n := by
    intro n
    cases ht : l.token? s.position with
    | none => rfl
    | some t =>
      show blocksAfter n t >>= some = some n
      rw [blocksAfter_of_isContent t n (Lexeme.isContent_of_token? l _ t ht)]
      rfl
  rw [Scan.emit, List.foldlM_append, hmarks]
  exact htoken _

theorem foldlM_tokens (s : Scan) (ls : List Lexeme) :
    (s.tokens ls).foldlM blocksAfter s.layout.blocks.length = some (s.last ls).layout.blocks.length := by
  induction ls generalizing s with
  | nil => rfl
  | cons l ls ih =>
    rw [Scan.tokens, List.foldlM_append, foldlM_emit]
    exact ih (s.step l ls)

theorem balanced_tokenize (source : String) : Balanced (tokenize source) := by
  have hclosing := foldlM_dedents (Position.start.after source.toList)
    (Scan.last {} (lexemes source.toList)).layout.blocks 0
  rw [Nat.zero_add] at hclosing
  have htokens := foldlM_tokens {} (lexemes source.toList)
  rw [Balanced, tokenize_eq, List.foldlM_append, List.foldlM_append]
  show (((_ : List Token).foldlM blocksAfter (Scan.layout {}).blocks.length >>= _) >>= _) = _
  rw [htokens]
  show ((_ : List Token).foldlM blocksAfter _ >>= _) = _
  rw [Layout.closing, hclosing]
  rfl

/-! ## The marks of a text -/

theorem layout_last {source : String} (s : Scan) (done ls : List Lexeme) (h : lexemes source.toList = done ++ ls)
    (reached : s.Reached done) (layout : s.layout = (outlineOf source).layoutAt s.nextLine) :
    (s.last ls).layout = (outlineOf source).layoutAt ((s.last ls).position.line + 1) := by
  induction ls generalizing s done with
  | nil =>
    rw [List.append_nil] at h
    have hskip := Outline.layoutAt_of_not_significant (outlineOf source) _ _ s.nextLine_le
      fun n low _ => not_significant_of_end h reached n low
    show s.layout = (outlineOf source).layoutAt (s.position.line + 1)
    rw [layout, hskip]
  | cons l ls ih =>
    have happ := h.trans (List.append_cons done l ls)
    exact ih (s.step l ls) (done ++ [l]) happ (reached.step l ls) (layout_step h reached layout)

theorem layout_start (source : String) : Scan.layout {} = (outlineOf source).layoutAt (Scan.nextLine {}) := by
  have hskip := Outline.layoutAt_of_not_significant (outlineOf source) 0 1 (Nat.zero_le 1) fun n _ hn => by
    rw [Nat.lt_one_iff.1 hn]
    rfl
  exact hskip.symm

theorem line_last (source : String) :
    (Scan.last {} (lexemes source.toList)).position.line = 1 + source.toList.count '\n' := by
  rw [Scan.position_last_lexemes, Position.line_after]
  rfl

theorem tokens_eq_flatMap (source : String) : Scan.tokens {} (lexemes source.toList) =
    (List.range' 1 (1 + source.toList.count '\n')).flatMap fun n =>
      (outlineOf source).marksBefore n ++ (contentOf (tokenize source)).filter (·.line == n) := by
  obtain ⟨hsorted, hrange⟩ := Scan.pairwise_tokens {} (lexemes source.toList)
  rw [line_last] at hrange
  rw [← eq_flatMap_filter_line _ 1 (1 + source.toList.count '\n') hsorted fun t ht =>
    ⟨(hrange t ht).1, Nat.lt_of_le_of_lt (hrange t ht).2 (by omega)⟩]
  apply List.flatMap_congr
  intro n hn
  have hfirst : Scan.nextLine {} ≤ n := (List.mem_range'_1.1 hn).1
  rw [filter_tokens n (List.nil_append _).symm Scan.reached_start (layout_start source), if_pos hfirst,
    contentOf_tokenize]

theorem closing_last (source : String) (p : Position) :
    (Scan.last {} (lexemes source.toList)).layout.closing.map (Scan.mark p) =
      (outlineOf source).marksAtEnd (1 + source.toList.count '\n') p := by
  rw [layout_last {} [] _ (List.nil_append _).symm Scan.reached_start (layout_start source), line_last,
    Outline.closing_layoutAt]

/-- The marks of a text are those of its outline: line after line, each in front of the tokens of its line, and at the
end one for each block that is still open. Every line that counts has a token, and the marks are balanced. -/
theorem tokenize_marks_blocks (source : String) :
    (tokenize source =
      (List.range' 1 (1 + source.toList.count '\n')).flatMap (fun n =>
        (outlineOf source).marksBefore n ++ (contentOf (tokenize source)).filter (·.line == n)) ++
      (outlineOf source).marksAtEnd (1 + source.toList.count '\n') (positionAfter source.toList) ++
      [endToken (positionAfter source.toList)]) ∧
    (∀ n, (outlineOf source).significant n = true → ∃ t ∈ contentOf (tokenize source), t.line = n) ∧
    Balanced (tokenize source) := by
  refine ⟨?_, fun n hn => ?_, balanced_tokenize source⟩
  · rw [← tokens_eq_flatMap, ← start_after, ← closing_last, ← tokenize_eq]
  · have hpos : Scan.nextLine {} ≤ n := by
      apply Nat.pos_of_ne_zero
      intro hzero
      rw [hzero] at hn
      cases hn
    rw [contentOf_tokenize]
    exact exists_token_of_significant n (List.nil_append _).symm Scan.reached_start hpos hn

end ExprLang
