import Mathlib.Data.List.TakeWhile
import ExprLang.Proofs.Token.Blocks
import ExprLang.Text.Line

/-!
# The outline of a text

* `physicalLine`, `holdsCode`, `leadingSpaces` : the lines of a text, and what counts of one;
* `insideString`, `bracketDepth` : what the tokens say about the start of a line;
* `outlineOf` : the outline of a text;
* `Scan.Reached` : the scan after some of the lexemes, but for its layout;
* `significant_of_lineStart`, `width_of_lineStart`, `not_significant_of_crossed` : a scan sees the outline.
-/

namespace ExprLang

open Text (isBlank isGap)
open Lexeme (textOf tokensFrom)

/-! ## Lines -/

/-- The characters of line `n` of a text, or none if the text has no such line. -/
def physicalLine (source : List Char) (n : Nat) : List Char :=
  ((Text.dropLines? (n - 1) source).getD []).takeWhile (· != '\n')

/-- Whether a line holds something other than white space and a comment. -/
def holdsCode (line : List Char) : Bool :=
  match line.dropWhile isBlank with
  | [] => false
  | c :: _ => c != '#'

def leadingSpaces (line : List Char) : Nat := (line.takeWhile (· == ' ')).length

/-- Whether line `n` begins inside one of the strings among the tokens. -/
def insideString (ts : List Token) (n : Nat) : Bool :=
  ts.any fun t => t.kind == .stringLiteral && decide (t.line < n) && decide (n ≤ t.line + t.text.toList.count '\n')

/-- The number of open brackets after a token. A closing bracket that closes none counts for nothing. -/
def bracketsAfter (depth : Nat) (t : Token) : Nat :=
  if t.isOperator "(" || t.isOperator "[" || t.isOperator "\x7b" then depth + 1
  else if t.isOperator ")" || t.isOperator "]" || t.isOperator "\x7d" then depth - 1
  else depth

def bracketDepth (ts : List Token) (n : Nat) : Nat := (ts.filter fun t => decide (t.line < n)).foldl bracketsAfter 0

/-- The outline of a text. A line counts if it begins outside brackets and strings and holds something. -/
def outlineOf (source : String) : Outline where
  significant n :=
    decide (0 < n) && !insideString (contentOf (tokenize source)) n &&
      bracketDepth (contentOf (tokenize source)) n == 0 && holdsCode (physicalLine source.toList n)
  width n := leadingSpaces (physicalLine source.toList n)

/-! ## The line at the front of a text -/

theorem dropLines?_append (cs rest : List Char) :
    Text.dropLines? (cs.count '\n' + 1) (cs ++ '\n' :: rest) = some rest := by
  induction cs with
  | nil => simp [Text.dropLines?]
  | cons c cs ih =>
    by_cases h : c = '\n'
    · rw [h, List.count_cons_self, List.cons_append, Text.dropLines?, if_pos rfl, ih]
    · rw [List.count_cons_of_ne h, List.cons_append, Text.dropLines?, if_neg h, ih]

theorem dropWhile_isBlank_line (cs : List Char) :
    (cs.takeWhile (· != '\n')).dropWhile isBlank = (cs.dropWhile isGap).takeWhile (· != '\n') := by
  induction cs with
  | nil => rfl
  | cons c cs ih =>
    by_cases hc : c = '\n'
    · subst hc
      rw [List.takeWhile_cons_of_neg (by decide), List.dropWhile_cons_of_neg (by decide),
        List.takeWhile_cons_of_neg (by decide)]
      rfl
    · have hne : (c != '\n') = true := by simpa using hc
      rw [List.takeWhile_cons_of_pos (by exact hne)]
      by_cases hb : isBlank c = true
      · rw [List.dropWhile_cons_of_pos hb, ih, List.dropWhile_cons_of_pos ((Text.isGap_iff c).2 ⟨hb, hc⟩)]
      · have hg : ¬ isGap c = true := fun h => hb ((Text.isGap_iff c).1 h).1
        rw [List.dropWhile_cons_of_neg hb, List.dropWhile_cons_of_neg hg, List.takeWhile_cons_of_pos (by exact hne)]

/-- The lexemes show whether the line in front of them holds something. -/
theorem isSignificant_lexemes (cs : List Char) :
    Layout.isSignificant (lexemes cs) = holdsCode (cs.takeWhile (· != '\n')) := by
  rw [Layout.isSignificant, lexemes_dropWhile_gap, holdsCode, dropWhile_isBlank_line]
  cases cs.dropWhile isGap with
  | nil => rw [lexemes_nil]; rfl
  | cons d ds =>
    rw [lexemes_cons]
    by_cases hd : d = '\n'
    · subst hd
      rw [List.takeWhile_cons_of_neg (by decide)]
      rfl
    · have hne : (d != '\n') = true := by simpa using hd
      rw [List.takeWhile_cons_of_pos (by exact hne), Bool.eq_iff_iff]
      simp [Lexeme.ofChar_eq_newline_iff, Lexeme.ofChar_eq_comment_iff, hd]

theorem takeWhile_spaces (p : Char → Bool) (hp : p ' ' = true) (cs : List Char) :
    (cs.takeWhile p).takeWhile (· == ' ') = cs.takeWhile (· == ' ') := by
  rw [List.takeWhile_takeWhile]
  congr 1
  funext c
  by_cases hc : c = ' '
  · rw [hc, hp]; rfl
  · simp [hc]

theorem widthOf_lexemes (cs : List Char) :
    Layout.widthOf (lexemes cs) = leadingSpaces (cs.takeWhile (· != '\n')) := by
  rw [leadingSpaces, takeWhile_spaces _ (by decide)]
  cases cs with
  | nil => rw [lexemes_nil]; rfl
  | cons c cs =>
    rw [lexemes_cons]
    show ((c :: ((Lexeme.Shape.ofChar c).extent cs).1).takeWhile (· == ' ')).length = _
    by_cases hg : isGap c = true
    · rw [(Lexeme.ofChar_eq_gap_iff c).2 hg, Lexeme.Shape.extent, ← List.takeWhile_cons_of_pos hg,
        takeWhile_spaces _ (by decide)]
    · have hc : ¬ (c == ' ') = true := by
        intro h
        rw [eq_of_beq h] at hg
        exact hg (by decide)
      rw [List.takeWhile_cons_of_neg (by exact hc), List.takeWhile_cons_of_neg (by exact hc)]

/-! ## Brackets -/

theorem opening_iff (l : Lexeme) (rest : List Char) (fits : l.Fits rest) :
    l.text = ['('] ∨ l.text = ['['] ∨ l.text = ['{'] ↔ l.shape = .opening := by
  constructor
  · rintro (h | h | h) <;> rw [Lexeme.shape_of_text l rest fits _ h] <;> decide
  · intro h
    obtain ⟨c, hc, hstarts⟩ := Lexeme.exists_text_eq_singleton l rest fits (by rw [h]; exact fun _ => rfl)
    rw [h] at hstarts
    simpa [hc, Lexeme.Shape.starts, Lexeme.isOpening, or_assoc] using hstarts

theorem closing_iff (l : Lexeme) (rest : List Char) (fits : l.Fits rest) :
    l.text = [')'] ∨ l.text = [']'] ∨ l.text = ['}'] ↔ l.shape = .closing := by
  constructor
  · rintro (h | h | h) <;> rw [Lexeme.shape_of_text l rest fits _ h] <;> decide
  · intro h
    obtain ⟨c, hc, hstarts⟩ := Lexeme.exists_text_eq_singleton l rest fits (by rw [h]; exact fun _ => rfl)
    rw [h] at hstarts
    simpa [hc, Lexeme.Shape.starts, Lexeme.isClosing, or_assoc] using hstarts

theorem foldl_bracketsAfter_token? (l : Lexeme) (rest : List Char) (fits : l.Fits rest) (p : Position) (depth : Nat) :
    (l.token? p).toList.foldl bracketsAfter depth = l.brackets depth := by
  have hopen := opening_iff l rest fits
  have hclose := closing_iff l rest fits
  have htext : ∀ text : String, (String.ofList l.text == text) = decide (l.text = text.toList) := by
    intro text
    rw [Bool.eq_iff_iff, beq_iff_eq, decide_eq_true_eq, ← String.toList_inj, String.toList_ofList]
  cases hs : l.shape with
  | gap | comment | newline => simp [Lexeme.token?, Lexeme.kind?, Lexeme.brackets, hs]
  | word | number =>
    simp only [Lexeme.token?, Lexeme.kind?, Lexeme.brackets, hs, Option.map_some, Option.toList_some, List.foldl_cons,
      List.foldl_nil, bracketsAfter, Token.isOperator]
    split <;> rfl
  | string => simp [Lexeme.token?, Lexeme.kind?, Lexeme.brackets, hs, bracketsAfter, Token.isOperator]
  | operators | opening | closing | single =>
    simp only [hs, reduceCtorEq, iff_false, iff_true] at hopen hclose
    simp [Lexeme.token?, Lexeme.kind?, Lexeme.brackets, hs, bracketsAfter, Token.isOperator, htext, or_assoc, hopen,
      hclose]

theorem foldl_bracketsAfter_tokensFrom (source : List Char) (done ls : List Lexeme) (h : lexemes source = done ++ ls)
    (p : Position) (depth : Nat) :
    (tokensFrom p done).foldl bracketsAfter depth = done.foldl (fun depth l => l.brackets depth) depth := by
  induction done generalizing source p depth with
  | nil => rfl
  | cons l done ih =>
    obtain ⟨rest, -, fits, hrest⟩ := fits_of_lexemes source l (done ++ ls) h
    rw [tokensFrom, List.foldl_append, foldl_bracketsAfter_token? l rest fits, List.foldl_cons]
    exact ih rest hrest.symm _ _

/-! ## Places in a text -/

/-- The scan has come to the end of the lexemes `done`. Nothing is said of its layout, for which it looks ahead. -/
structure Scan.Reached (s : Scan) (done : List Lexeme) : Prop where
  position : s.position = Position.start.after (textOf done)
  brackets : s.brackets = done.foldl (fun depth l => l.brackets depth) 0
  lineStart : s.atLineStart = true → ∀ l ∈ done.getLast?, l.shape = .newline

theorem Scan.reached_start : Scan.Reached {} [] := ⟨rfl, rfl, fun _ l h => by cases h⟩

theorem Scan.Reached.step {s : Scan} {done : List Lexeme} (h : s.Reached done) (l : Lexeme) (ls : List Lexeme) :
    (s.step l ls).Reached (done ++ [l]) where
  position := by
    rw [Lexeme.textOf_append, Position.after_append, ← h.position, Lexeme.textOf_cons, Lexeme.textOf_nil,
      List.append_nil]
    rfl
  brackets := by
    rw [List.foldl_append, ← h.brackets]
    rfl
  lineStart := by
    intro hl k hk
    rw [List.getLast?_concat, Option.mem_some_iff] at hk
    rw [← hk]
    exact eq_of_beq hl

section

variable {source : String} {s : Scan} {done ls : List Lexeme}

theorem contentOf_tokenize_of_append (h : lexemes source.toList = done ++ ls) (reached : s.Reached done) :
    contentOf (tokenize source) = tokensFrom .start done ++ tokensFrom s.position ls := by
  rw [contentOf_tokenize, h, Lexeme.tokensFrom_append, reached.position]

/-- Where a line starts, either nothing comes before, or a newline. -/
theorem Scan.Reached.eq_nil_or_newline (h : lexemes source.toList = done ++ ls) (reached : s.Reached done)
    (hs : s.atLineStart = true) :
    done = [] ∨ ∃ before l, done = before ++ [l] ∧ l.shape = .newline ∧ l.text = ['\n'] := by
  rcases List.eq_nil_or_concat done with hd | ⟨before, l, hd⟩
  · exact Or.inl hd
  · rw [List.concat_eq_append] at hd
    subst hd
    have hshape := reached.lineStart hs l (by rw [List.getLast?_concat]; rfl)
    rw [List.append_assoc] at h
    obtain ⟨-, hcut⟩ := lexemes_of_append _ _ _ h
    obtain ⟨rest, -, fits, -⟩ := fits_of_lexemes _ _ _ hcut
    exact Or.inr ⟨before, l, rfl, hshape, Lexeme.text_of_newline l rest fits hshape⟩

theorem endLine_lt_of_lineStart (h : lexemes source.toList = done ++ ls) (reached : s.Reached done)
    (hs : s.atLineStart = true) (t : Token) (ht : t ∈ tokensFrom .start done) :
    t.line + t.text.toList.count '\n' < s.position.line := by
  rcases reached.eq_nil_or_newline h hs with rfl | ⟨before, l, rfl, hshape, htext⟩
  · cases ht
  · have hsilent : l.kind? = none := by rw [Lexeme.kind?, hshape]
    rw [Lexeme.tokensFrom_append, tokensFrom, Lexeme.token?_of_silent hsilent] at ht
    have hle := Lexeme.endLine_le_of_mem_tokensFrom .start before t (by simpa [tokensFrom] using ht)
    rw [reached.position, Lexeme.textOf_append, Position.after_append, Lexeme.textOf_cons, htext]
    exact Nat.lt_succ_of_le hle

theorem physicalLine_of_lineStart (h : lexemes source.toList = done ++ ls) (reached : s.Reached done)
    (hs : s.atLineStart = true) :
    physicalLine source.toList s.position.line = (textOf ls).takeWhile (· != '\n') := by
  obtain ⟨hsource, -⟩ := lexemes_of_append _ _ _ h
  rw [hsource, reached.position]
  rcases reached.eq_nil_or_newline h hs with rfl | ⟨before, l, rfl, -, htext⟩
  · show ((Text.dropLines? 0 (textOf ls)).getD []).takeWhile _ = _
    rw [Text.dropLines?]
    rfl
  · have hline : (Position.start.after (textOf (before ++ [l]))).line - 1 = (textOf before).count '\n' + 1 := by
      rw [Position.line_after, Lexeme.textOf_append, Lexeme.textOf_cons, htext, List.count_append]
      exact Nat.add_sub_cancel_left 1 _
    rw [physicalLine, hline, Lexeme.textOf_append, Lexeme.textOf_cons, htext, List.append_assoc]
    exact congrArg (fun cs => (cs.getD []).takeWhile (· != '\n')) (dropLines?_append _ _)

theorem Scan.Reached.line_pos (reached : s.Reached done) : 0 < s.position.line := by
  rw [reached.position, Position.line_after]
  exact Nat.add_pos_left Nat.one_pos _

theorem insideString_of_lineStart (h : lexemes source.toList = done ++ ls) (reached : s.Reached done)
    (hs : s.atLineStart = true) : insideString (contentOf (tokenize source)) s.position.line = false := by
  rw [Bool.eq_false_iff]
  intro hin
  obtain ⟨t, ht, hspan⟩ := List.any_eq_true.1 hin
  simp only [Bool.and_eq_true, decide_eq_true_eq] at hspan
  rw [contentOf_tokenize_of_append h reached] at ht
  rcases List.mem_append.1 ht with ht | ht
  · have := endLine_lt_of_lineStart h reached hs t ht
    omega
  · have := Lexeme.le_line_of_mem_tokensFrom _ _ t ht
    omega

theorem bracketDepth_of_lineStart (h : lexemes source.toList = done ++ ls) (reached : s.Reached done)
    (hs : s.atLineStart = true) : bracketDepth (contentOf (tokenize source)) s.position.line = s.brackets := by
  have hbefore : (tokensFrom .start done).filter (fun t => decide (t.line < s.position.line)) =
      tokensFrom .start done := by
    rw [List.filter_eq_self]
    intro t ht
    have := endLine_lt_of_lineStart h reached hs t ht
    rw [decide_eq_true_eq]
    omega
  have hafter : (tokensFrom s.position ls).filter (fun t => decide (t.line < s.position.line)) = [] := by
    rw [List.filter_eq_nil_iff]
    intro t ht
    have := Lexeme.le_line_of_mem_tokensFrom _ _ t ht
    rw [decide_eq_true_eq]
    omega
  rw [bracketDepth, contentOf_tokenize_of_append h reached, List.filter_append, hbefore, hafter, List.append_nil,
    foldl_bracketsAfter_tokensFrom _ done ls h, reached.brackets]

/-- Where a line starts, the scan starts one if it counts. -/
theorem significant_of_lineStart (h : lexemes source.toList = done ++ ls) (reached : s.Reached done)
    (hs : s.atLineStart = true) : (outlineOf source).significant s.position.line = s.startsLine ls := by
  obtain ⟨-, hls⟩ := lexemes_of_append _ _ _ h
  have hcode : Layout.isSignificant ls = holdsCode (physicalLine source.toList s.position.line) := by
    rw [physicalLine_of_lineStart h reached hs, ← isSignificant_lexemes, hls]
  simp only [outlineOf, Scan.startsLine]
  rw [insideString_of_lineStart h reached hs, bracketDepth_of_lineStart h reached hs, decide_eq_true reached.line_pos,
    hs, hcode]
  rfl

theorem width_of_lineStart (h : lexemes source.toList = done ++ ls) (reached : s.Reached done)
    (hs : s.atLineStart = true) : (outlineOf source).width s.position.line = Layout.widthOf ls := by
  obtain ⟨-, hls⟩ := lexemes_of_append _ _ _ h
  show leadingSpaces (physicalLine source.toList s.position.line) = _
  rw [physicalLine_of_lineStart h reached hs, ← widthOf_lexemes, hls]

/-- The lines that a lexeme reaches into do not count, but for the one after a newline. -/
theorem not_significant_of_crossed {l : Lexeme} (h : lexemes source.toList = done ++ l :: ls)
    (reached : s.Reached done) (hl : l.shape ≠ .newline) (n : Nat) (low : s.position.line < n)
    (high : n ≤ (s.position.after l.text).line) : (outlineOf source).significant n = false := by
  rw [Position.line_after] at high
  obtain ⟨-, hcut⟩ := lexemes_of_append _ _ _ h
  obtain ⟨rest, -, fits, -⟩ := fits_of_lexemes _ _ _ hcut
  have hstring : l.shape = .string := by
    apply Classical.byContradiction
    intro hne
    have := List.count_eq_zero.2 (Lexeme.notMem_newline_of_fits l rest fits hl hne)
    omega
  let t : Token := { toPosition := s.position, kind := .stringLiteral, text := String.ofList l.text }
  have ht : t ∈ contentOf (tokenize source) := by
    rw [contentOf_tokenize_of_append h reached, tokensFrom, Lexeme.token?, Lexeme.kind?, hstring]
    exact List.mem_append_right _ (List.mem_append_left _ (List.mem_singleton.2 rfl))
  have hin : insideString (contentOf (tokenize source)) n = true := by
    refine List.any_eq_true.2 ⟨t, ht, ?_⟩
    simp only [t, String.toList_ofList, Bool.and_eq_true, decide_eq_true_eq]
    exact ⟨⟨rfl, low⟩, high⟩
  simp only [outlineOf, hin, Bool.not_true, Bool.and_false, Bool.false_and]

end

end ExprLang
