import ExprLang.Proofs.Lexeme.Lines
import ExprLang.Proofs.Token.Marks
import ExprLang.Proofs.Token.Relocation

/-!
# Texts put together line by line

A scan looks no further than to the end of a line. So the tokens of a text stay when more lines come after it, and what
comes after it depends on nothing but the blocks and brackets that the text leaves open. White space and comments at the
end of a line, and lines of nothing else, change no token.

* `frontOf`, `frontOf_tokenize` : the tokens of a text but for those that mark its end;
* `Token.isUnclosed`, `closed_lexemes_of_closed_tokens` : strings that the end of the text breaks off;
* `Scan.atNextLine`, `tokenize_append_lines` : the lines after a text, scanned from what the text leaves open;
* `Scan.layout_last_of_width` : a text whose last line is not indented leaves no block open;
* `prefix_tokenize_append_newline` : the tokens of a text, and then those of the lines after it;
* `Scan.run_lineTrivia`, `exists_run_of_lines` : trivia before a newline only ends the line, and lines end where the next
  one starts;
* `tokenize_append_lineTrivia` : trivia at the end of a line, and lines of nothing else.
-/

namespace ExprLang

open Lexeme (textOf tokensFrom)

/-! ## The end of a text -/

/-- The tokens without the end mark and the ends of blocks right before it. -/
def frontOf (ts : List Token) : List Token := Text.trimEndWhile (fun t => t.kind == .dedent) ts.dropLast

/-- Whether the token is a string that no second quote closes. -/
def Token.isUnclosed (t : Token) : Bool := t.kind == .stringLiteral && !t.text.toList.tail.contains '"'

/-- A line that counts holds a token. -/
theorem Layout.exists_kind_of_isSignificant {ls : List Lexeme} (h : isSignificant ls = true) :
    ∃ l ∈ ls, ∃ k, l.kind? = some k := by
  unfold isSignificant at h
  cases hdrop : ls.dropWhile (·.shape == .gap) with
  | nil =>
    rw [hdrop] at h
    cases h
  | cons l more =>
    have hgap : (l.shape == .gap) = false := Lexeme.stops_dropWhile (p := fun l : Lexeme => l.shape == .gap) l (by rw [hdrop]; rfl)
    rw [hdrop] at h
    obtain ⟨hnewline, hcomment⟩ := Bool.and_eq_true_iff.1 h
    exact ⟨l, (List.dropWhile_sublist _).subset (hdrop ▸ List.mem_cons_self),
      Lexeme.exists_kind? (ne_of_beq_false hgap) (bne_iff_ne.1 hnewline) (bne_iff_ne.1 hcomment)⟩

namespace Scan

/-- Marks stand in front of a token, so the last token of a scan stands for text. -/
theorem getLast?_tokens (s : Scan) (ls : List Lexeme) :
    (s.tokens ls).getLast? = (tokensFrom s.position ls).getLast? := by
  induction ls generalizing s with
  | nil => rfl
  | cons l ls ih =>
    have hsplit : (s.tokens (l :: ls)).getLast? =
        (tokensFrom s.position (l :: ls)).getLast?.or (s.marks (l :: ls)).getLast? := by
      rw [tokens, emit, List.append_assoc, List.getLast?_append, List.getLast?_append, ih (s.step l ls), tokensFrom,
        List.getLast?_append]
      rfl
    rw [hsplit]
    cases hlast : (tokensFrom s.position (l :: ls)).getLast? with
    | some t => rfl
    | none =>
      have hstarts : ¬ s.startsLine (l :: ls) = true := fun h => by
        obtain ⟨k, hk, kind, hkind⟩ := Layout.exists_kind_of_isSignificant (Bool.and_eq_true_iff.1 h).2
        obtain ⟨t, ht, -⟩ := Lexeme.exists_mem_tokensFrom s.position hk hkind
        rw [List.getLast?_eq_none_iff.1 hlast] at ht
        cases ht
      rw [marks, if_neg hstarts]
      rfl

end Scan

theorem frontOf_tokenize (source : String) : frontOf (tokenize source) = Scan.tokens {} (lexemes source.toList) := by
  have hclosing : ∀ t ∈ (Scan.last {} (lexemes source.toList)).layout.closing.map
      (Scan.mark (Position.start.after source.toList)), (t.kind == .dedent) = true := by
    intro t ht
    obtain ⟨k, hk, rfl⟩ := List.mem_map.1 ht
    obtain ⟨b, -, rfl⟩ := List.mem_map.1 hk
    rfl
  rw [frontOf, tokenize_eq, List.dropLast_concat, Text.trimEndWhile_of_all _ _ _ hclosing]
  rcases List.eq_nil_or_concat' (Scan.tokens {} (lexemes source.toList)) with h | ⟨ts, t, h⟩
  · rw [h]
    rfl
  · have hlast := Scan.getLast?_tokens {} (lexemes source.toList)
    rw [h, List.getLast?_concat] at hlast
    have hcontent := Lexeme.isContent_of_mem_tokensFrom _ _ t (List.mem_of_getLast? hlast.symm)
    have hkind : (t.kind == .dedent) = false := by
      rw [Bool.eq_false_iff]
      intro hdedent
      rw [Token.isContent, eq_of_beq hdedent] at hcontent
      cases hcontent
    rw [h, Text.trimEndWhile_append_cons (fun t : Token => t.kind == .dedent) ts [] t hkind]
    rfl

/-- A text ends in a string that is not closed if its last token before the closing marks is one. -/
theorem closed_lexemes_of_closed_tokens {source : String}
    (closed : ∀ t ∈ (frontOf (tokenize source)).getLast?, t.isUnclosed = false) :
    ∀ l ∈ (lexemes source.toList).getLast?, l.isUnclosed = false := by
  intro l hl
  obtain ⟨ls, hls⟩ := List.getLast?_eq_some_iff.1 hl
  by_cases hstring : l.shape = .string
  · have hkind : l.kind? = some .stringLiteral := by rw [Lexeme.kind?, hstring]
    rw [frontOf_tokenize, Scan.getLast?_tokens, hls, Lexeme.tokensFrom_append, tokensFrom, Lexeme.token?, hkind] at closed
    have hclosed := closed _ (List.getLast?_concat ..)
    rw [Token.isUnclosed, String.toList_ofList] at hclosed
    rw [Lexeme.isUnclosed, hstring]
    exact hclosed
  · exact Lexeme.isUnclosed_of_ne_string hstring

/-! ## Lines after a text -/

/-- The start of the next line, inside and outside the same brackets and blocks. -/
def Scan.atNextLine (s : Scan) : Scan := { s with position := ⟨s.position.line + 1, 0⟩, atLineStart := true }

theorem Scan.run_newline_cons (s : Scan) (ls : List Lexeme) :
    s.run (⟨.newline, ['\n']⟩ :: ls) = s.atNextLine.run ls := by
  have hstarts : s.startsLine (⟨.newline, ['\n']⟩ :: ls) = false := Bool.and_false _
  rw [run_cons, emit, marks, step, hstarts]
  rfl

/-- Where nothing is open, the next line starts as a text does, only further down. -/
theorem Scan.atNextLine_of_closed (s : Scan) (brackets : s.brackets = 0) (layout : s.layout = {}) :
    s.atNextLine = { ({} : Scan) with position := Position.start.down s.position.line } := by
  rw [atNextLine, brackets, layout, Position.down, Nat.add_comm]
  rfl

/-- The lines after a text are scanned from what the text leaves open. -/
theorem run_append_newline {cs : List Char} (closed : ∀ l ∈ (lexemes cs).getLast?, l.isUnclosed = false)
    (rest : List Char) : Scan.run {} (lexemes (cs ++ '\n' :: rest)) =
      Scan.tokens {} (lexemes cs) ++ (Scan.last {} (lexemes cs)).atNextLine.run (lexemes rest) := by
  have hsilent : Layout.isSignificant (⟨.newline, ['\n']⟩ :: lexemes rest) = false := rfl
  rw [lexemes_append_newline _ _ closed, Scan.run_append _ fun _ _ _ => hsilent, Scan.run_newline_cons]

theorem toList_append_newline (a b : String) : (a ++ "\n" ++ b).toList = a.toList ++ '\n' :: b.toList := by
  rw [String.toList_append, String.toList_append, List.append_assoc]
  rfl

section

variable {a : String} (closed : ∀ l ∈ (lexemes a.toList).getLast?, l.isUnclosed = false)
include closed

theorem tokenize_append_lines (b : String) : tokenize (a ++ "\n" ++ b) = Scan.tokens {} (lexemes a.toList) ++
    (Scan.last {} (lexemes a.toList)).atNextLine.run (lexemes b.toList) := by
  rw [tokenize_eq_run, toList_append_newline, run_append_newline closed]

/-- If the text leaves nothing open, then the lines after it are scanned as if they stood alone, only further down. -/
theorem tokenize_append_lines_of_closed (b : String) (brackets : (Scan.last {} (lexemes a.toList)).brackets = 0)
    (layout : (Scan.last {} (lexemes a.toList)).layout = {}) : tokenize (a ++ "\n" ++ b) =
      Scan.tokens {} (lexemes a.toList) ++ (tokenize b).map (Token.down (1 + a.toList.count '\n')) := by
  rw [tokenize_append_lines closed, Scan.atNextLine_of_closed _ brackets layout, line_last, tokenize_eq_run b,
    ← Scan.run_down]

end

/-! ## Blocks that stay open -/

/-- What every line keeps of the layout holds at the end of the text. -/
theorem Scan.layout_last_induction {P : Layout → Prop} (hmove : ∀ l w, P l → P (l.move w)) (s : Scan)
    (ls : List Lexeme) (hs : P s.layout) : P (s.last ls).layout := by
  induction ls generalizing s with
  | nil => exact hs
  | cons l ls ih =>
    refine ih (s.step l ls) ?_
    unfold step
    split
    · exact hmove _ _ hs
    · exact hs

/-- Every block is indented. -/
theorem Layout.blocks_pos_move (l : Layout) (w : Nat) (h : ∀ b ∈ l.blocks, 0 < b) : ∀ b ∈ (l.move w).blocks, 0 < b := by
  intro b hb
  rw [move] at hb
  split at hb
  · next hw =>
    rcases List.mem_cons.1 hb with rfl | hb
    · omega
    · exact h b hb
  · exact h b ((List.dropWhile_sublist _).subset hb)

/-- Where the last line is not indented, no block is open. -/
theorem Scan.layout_last_of_width (ls : List Lexeme) (hwidth : (Scan.last {} ls).layout.width = 0) :
    (Scan.last {} ls).layout = {} := by
  have hordered := Scan.layout_last_induction Layout.ordered_move {} ls Layout.ordered_empty
  have hpos := Scan.layout_last_induction Layout.blocks_pos_move {} ls fun b hb => absurd hb List.not_mem_nil
  generalize (Scan.last {} ls).layout = layout at hwidth hordered hpos
  obtain ⟨blocks, width⟩ := layout
  obtain rfl : width = 0 := hwidth
  have hblocks : blocks = [] := List.eq_nil_iff_forall_not_mem.2 fun b hb => by
    have hlow := hpos b hb
    have hhigh : b < 0 + 1 := (List.pairwise_cons.1 hordered).1 b hb
    omega
  rw [hblocks]

/-- The tokens of a text stay when lines come after it. If the text leaves no bracket open and its last line is not
indented, then the tokens of those lines are what they are alone, only further down. -/
theorem prefix_tokenize_append_newline (a b : String)
    (closed : ∀ t ∈ (frontOf (tokenize a)).getLast?, t.isUnclosed = false) :
    frontOf (tokenize a) <+: tokenize (a ++ "\n" ++ b) ∧
    ((Scan.last {} (lexemes a.toList)).brackets = 0 → (Scan.last {} (lexemes a.toList)).layout.width = 0 →
      tokenize (a ++ "\n" ++ b) = frontOf (tokenize a) ++ (tokenize b).map (Token.down (1 + a.toList.count '\n'))) := by
  have hclosed := closed_lexemes_of_closed_tokens closed
  rw [frontOf_tokenize]
  constructor
  · exact ⟨_, (tokenize_append_lines hclosed b).symm⟩
  · intro brackets width
    exact tokenize_append_lines_of_closed hclosed b brackets (Scan.layout_last_of_width _ width)

/-- A text that ends in a string and outside every block, and an indented line after it. -/
theorem tokenize_append_newline_of_block :
    frontOf (tokenize "if x:\n  y\n\"z\"") <+: tokenize ("if x:\n  y\n\"z\"" ++ "\n" ++ "  w") ∧
    tokenize ("if x:\n  y\n\"z\"" ++ "\n" ++ "  w") =
      frontOf (tokenize "if x:\n  y\n\"z\"") ++ (tokenize "  w").map (Token.down 3) := by
  obtain ⟨hfront, hrest⟩ := prefix_tokenize_append_newline "if x:\n  y\n\"z\"" "  w" (by decide +kernel)
  exact ⟨hfront, hrest (by decide +kernel) (by decide +kernel)⟩

/-! ## Trivia at the end of a line -/

theorem Layout.isSignificant_of_trivia {ls : List Lexeme} (h : ∀ l ∈ ls, l.shape = .gap ∨ l.shape = .comment)
    (ms : List Lexeme) : isSignificant (ls ++ ⟨.newline, ['\n']⟩ :: ms) = false := by
  induction ls with
  | nil => rfl
  | cons l ls ih =>
    rw [List.forall_mem_cons] at h
    rcases h.1 with hl | hl
    · rw [isSignificant, List.cons_append, List.dropWhile_cons_of_pos (by exact beq_iff_eq.2 hl)]
      exact ih h.2
    · rw [isSignificant, List.cons_append, List.dropWhile_cons_of_neg (by rw [hl]; decide)]
      simp only [hl]
      decide

/-- White space and comments before a newline change nothing of a scan. -/
theorem Scan.run_trivia_newline (s : Scan) (ls ms : List Lexeme) (h : ∀ l ∈ ls, l.shape = .gap ∨ l.shape = .comment)
    (hline : '\n' ∉ textOf ls) : s.run (ls ++ ⟨.newline, ['\n']⟩ :: ms) = s.atNextLine.run ms := by
  induction ls generalizing s with
  | nil => exact s.run_newline_cons ms
  | cons l ls ih =>
    have hstarts : s.startsLine (l :: (ls ++ ⟨.newline, ['\n']⟩ :: ms)) = false := by
      rw [startsLine, ← List.cons_append, Layout.isSignificant_of_trivia h, Bool.and_false]
    rw [Lexeme.textOf_cons, List.mem_append, not_or] at hline
    rw [List.forall_mem_cons] at h
    have hsilent : l.kind? = none := by
      rcases h.1 with hl | hl <;> rw [Lexeme.kind?, hl]
    have hposition : (s.position.after l.text).line = s.position.line := by
      rw [Position.line_after, List.count_eq_zero.2 hline.1, Nat.add_zero]
    rw [List.cons_append, run_cons, ih _ h.2 hline.2, emit, marks, step, hstarts,
      Lexeme.token?_of_silent hsilent]
    simp only [atNextLine, Lexeme.brackets_of_silent hsilent, hposition]
    rfl

section

variable {w : List Char} (trivia : LineTrivia w)
include trivia

theorem LineTrivia.isSignificant_lexemes (rest : List Char) :
    Layout.isSignificant (lexemes (w ++ '\n' :: rest)) = false := by
  obtain ⟨ls, hls, -, hshapes⟩ := trivia.exists_lexemes rest
  rw [hls, Layout.isSignificant_of_trivia hshapes]

theorem Scan.run_lineTrivia (s : Scan) (rest : List Char) :
    s.run (lexemes (w ++ '\n' :: rest)) = s.atNextLine.run (lexemes rest) := by
  obtain ⟨ls, hls, htext, hshapes⟩ := trivia.exists_lexemes rest
  rw [hls]
  exact s.run_trivia_newline ls _ hshapes (htext ▸ trivia.newline_notMem)

/-- Trivia at the end of a line changes no token. -/
theorem run_append_lineTrivia {cs : List Char} (closed : ∀ l ∈ (lexemes cs).getLast?, l.isUnclosed = false)
    (rest : List Char) : Scan.run {} (lexemes (cs ++ (w ++ '\n' :: rest))) =
      Scan.run {} (lexemes (cs ++ '\n' :: rest)) := by
  obtain ⟨ls, v, grow, hcut⟩ := exists_cut_before_trivia cs closed
  have hrun : ∀ u, LineTrivia u → Scan.run {} (lexemes (cs ++ (u ++ '\n' :: rest))) =
      Scan.tokens {} ls ++ (Scan.last {} ls).atNextLine.run (lexemes rest) := by
    intro u hu
    rw [hcut u rest hu, Scan.run_append _ fun _ _ _ => (grow u hu).isSignificant_lexemes rest,
      Scan.run_lineTrivia (grow u hu)]
  rw [hrun w trivia]
  exact (hrun [] .nil).symm

end

/-! ## Lines of trivia -/

theorem Scan.line_le_of_mem_run (s : Scan) (ls : List Lexeme) : ∀ t ∈ s.run ls, s.position.line ≤ t.line := by
  intro t ht
  obtain ⟨-, hrange⟩ := s.pairwise_tokens ls
  rcases List.mem_append.1 ht with ht | ht
  · exact (hrange t ht).1
  · have hline : t.line = (s.last ls).position.line := by
      rcases List.mem_append.1 ht with ht | ht
      · obtain ⟨k, -, rfl⟩ := List.mem_map.1 ht
        rfl
      · rw [List.mem_singleton.1 ht]
    rw [hline, Scan.position_last, Position.line_after]
    exact Nat.le_add_right _ _

/-- After whole lines a scan is at the start of the next one. -/
theorem exists_run_of_lines {cs : List Char} (lines : cs = [] ∨ ∃ done, cs = done ++ ['\n'])
    (closed : ∀ l ∈ (lexemes cs).getLast?, l.isUnclosed = false) :
    ∃ (ts : List Token) (s : Scan), s.atLineStart = true ∧ s.position = ⟨cs.count '\n' + 1, 0⟩ ∧
      (∀ t ∈ ts, t.line ≤ cs.count '\n') ∧ ∀ rest, Scan.run {} (lexemes (cs ++ rest)) = ts ++ s.run (lexemes rest) := by
  rcases lines with rfl | ⟨cs, rfl⟩
  · exact ⟨[], {}, rfl, rfl, fun t ht => absurd ht List.not_mem_nil, fun rest => rfl⟩
  · have hcount : (cs ++ ['\n']).count '\n' = (Scan.last {} (lexemes cs)).position.line := by
      rw [Scan.position_last_lexemes, Position.line_after, List.count_append]
      exact Nat.add_comm _ _
    rw [hcount]
    refine ⟨Scan.tokens {} (lexemes cs), (Scan.last {} (lexemes cs)).atNextLine, rfl, rfl,
      fun t ht => ((Scan.pairwise_tokens {} (lexemes cs)).2 t ht).2, fun rest => ?_⟩
    rw [List.append_assoc]
    exact run_append_newline (closed_of_append_newline closed) rest

/-- Trivia changes no token: at the end of a line it does nothing, and as a line of its own it moves the lines after it
down by one. -/
theorem tokenize_append_lineTrivia (a w b : String)
    (closed : ∀ t ∈ (frontOf (tokenize a)).getLast?, t.isUnclosed = false) (trivia : LineTrivia w.toList) :
    tokenize (a ++ w ++ "\n" ++ b) = tokenize (a ++ "\n" ++ b) ∧
    ((a = "" ∨ ∃ lines, a = lines ++ "\n") → tokenize (a ++ w ++ "\n" ++ b) =
      (tokenize (a ++ b)).map fun t => if a.toList.count '\n' < t.line then t.down 1 else t) := by
  have hclosed := closed_lexemes_of_closed_tokens closed
  have hwhole : (a ++ w ++ "\n" ++ b).toList = a.toList ++ (w.toList ++ '\n' :: b.toList) := by
    rw [toList_append_newline, String.toList_append, List.append_assoc]
  constructor
  · rw [tokenize_eq_run, tokenize_eq_run, hwhole, toList_append_newline, run_append_lineTrivia trivia hclosed]
  · intro lines
    have hlines : a.toList = [] ∨ ∃ done, a.toList = done ++ ['\n'] := by
      rcases lines with rfl | ⟨lines, rfl⟩
      · exact Or.inl rfl
      · exact Or.inr ⟨lines.toList, String.toList_append⟩
    obtain ⟨ts, s, hstart, hposition, hts, hrun⟩ := exists_run_of_lines hlines hclosed
    have hnext : s.atNextLine = { s with position := s.position.down 1 } := by
      rw [Scan.atNextLine, Position.down, hposition, hstart]
    have hfront : ts.map (fun t => if a.toList.count '\n' < t.line then t.down 1 else t) = ts :=
      (List.map_congr_left fun t ht => if_neg (Nat.not_lt.2 (hts t ht))).trans (List.map_id ts)
    have hback : (s.run (lexemes b.toList)).map (fun t => if a.toList.count '\n' < t.line then t.down 1 else t) =
        (s.run (lexemes b.toList)).map (Token.down 1) := by
      refine List.map_congr_left fun t ht => if_pos ?_
      have hline := s.line_le_of_mem_run _ t ht
      rw [hposition] at hline
      exact hline
    rw [tokenize_eq_run, hwhole, hrun, Scan.run_lineTrivia trivia, hnext, Scan.run_down, tokenize_eq_run,
      String.toList_append, hrun, List.map_append, hfront, hback]

/-- A comment that is less indented than its block: after a statement, and on a line of its own. -/
theorem tokenize_append_lineTrivia_of_comment :
    tokenize ("if x:\n  y" ++ "\t# z" ++ "\n" ++ "  w") = tokenize ("if x:\n  y" ++ "\n" ++ "  w") ∧
    tokenize ("if x:\n  y\n" ++ "\t# z" ++ "\n" ++ "  w") =
      (tokenize ("if x:\n  y\n" ++ "  w")).map fun t => if 2 < t.line then t.down 1 else t := by
  have trivia : LineTrivia ("\t# z" : String).toList := .gap (by decide) (.comment (by decide))
  exact ⟨(tokenize_append_lineTrivia "if x:\n  y" _ "  w" (by decide +kernel) trivia).1,
    (tokenize_append_lineTrivia "if x:\n  y\n" _ "  w" (by decide +kernel) trivia).2 (Or.inr ⟨"if x:\n  y", rfl⟩)⟩

end ExprLang
