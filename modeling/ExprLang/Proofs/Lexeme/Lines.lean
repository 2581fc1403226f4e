import Mathlib.Data.List.Basic
import ExprLang.Proofs.Lexeme.Boundary

/-!
# Lexemes line by line

A newline ends every lexeme but a string that is not closed. So a text is cut line by line, and what may stand at the
end of a line, white space and a comment, does not change the cut of the other lines.

* `lexemes_append_newline` : the lexemes of a text, a newline, and the lexemes of what comes after it;
* `lexemes_append_newline_of_unclosed` : a string that is not closed goes on over the newline;
* `LineTrivia` : what may stand at the end of a line, `LineTrivia.exists_lexemes`;
* `exists_cut_before_trivia` : a text is cut alike, whatever trivia ends its last line.
-/

namespace ExprLang

open Text (isBlank isGap)
open Lexeme (textOf)

/-! ## Newlines -/

theorem lexemes_newline_cons (rest : List Char) : lexemes ('\n' :: rest) = ⟨.newline, ['\n']⟩ :: lexemes rest := by
  rw [lexemes_cons, (Lexeme.ofChar_eq_newline_iff '\n').2 rfl]
  rfl

/-- A text is cut as before if a newline and more come after it, unless it ends in a string that is not closed. -/
theorem lexemes_append_newline (cs rest : List Char) (closed : ∀ l ∈ (lexemes cs).getLast?, l.isUnclosed = false) :
    lexemes (cs ++ '\n' :: rest) = lexemes cs ++ ⟨.newline, ['\n']⟩ :: lexemes rest := by
  have hcut := lexemes_textOf_append cs (lexemes cs) [] ('\n' :: rest) (List.append_nil _).symm
    (fun l hl => Lexeme.stopsBefore_newline (closed l hl) rest) (by rintro c ⟨⟩; decide)
  rwa [textOf, flatMap_text_lexemes, lexemes_newline_cons] at hcut

/-- The lexemes before one that stays are cut alike, whatever comes after it. -/
theorem stopsBefore_of_lexemes {source : List Char} {ls ms : List Lexeme} {l : Lexeme}
    (h : lexemes source = ls ++ l :: ms) {rest : List Char} (digit : ∀ c ∈ rest.head?, c.isDigit = false) :
    ∀ k ∈ ls.getLast?, k.StopsBefore (l.text ++ rest) := by
  intro k hk
  obtain ⟨before, rfl⟩ := List.getLast?_eq_some_iff.1 hk
  rw [List.append_assoc] at h
  obtain ⟨-, hcut⟩ := lexemes_of_append source before _ h
  obtain ⟨after, -, fits, hafter⟩ := fits_of_lexemes _ k (l :: ms) hcut
  obtain ⟨after', rfl, ⟨c, cs, ht, -⟩, -⟩ := fits_of_lexemes after l ms hafter.symm
  have hstops := fits.stopsBefore
  rw [ht] at hstops ⊢
  exact hstops.of_append digit

theorem Lexeme.splitQuote_append_of_notMem {body : List Char} (h : '"' ∉ body) (rest : List Char) :
    splitQuote (body ++ rest) = (body ++ (splitQuote rest).1, (splitQuote rest).2) := by
  have hbody : ∀ c ∈ body, (c != '"') = true := bne_of_notMem h
  unfold splitQuote
  rw [List.dropWhile_append_of_pos hbody, List.takeWhile_append_of_pos hbody]
  split
  · rfl
  · rw [List.append_assoc]

/-- A string that is not closed is a quote and characters that are none. -/
theorem exists_text_of_unclosed {cs : List Char} {ls : List Lexeme} {l : Lexeme} (h : lexemes cs = ls ++ [l])
    (unclosed : l.isUnclosed = true) : ∃ body, '"' ∉ body ∧ l.text = '"' :: body := by
  obtain ⟨hshape, hquote⟩ := Bool.and_eq_true_iff.1 unclosed
  obtain ⟨-, hcut⟩ := lexemes_of_append cs ls [l] h
  obtain ⟨-, -, ⟨c, body, ht, hs, -⟩, -⟩ := fits_of_lexemes _ l [] hcut
  have hc := Lexeme.starts_ofChar c
  rw [← hs, eq_of_beq hshape] at hc
  obtain rfl : c = '"' := eq_of_beq hc
  exact ⟨body, by simpa [ht] using hquote, ht⟩

/-- A string that is not closed goes on over a newline. -/
theorem lexemes_append_newline_of_unclosed {cs : List Char} {ls : List Lexeme} {l : Lexeme}
    (h : lexemes cs = ls ++ [l]) (unclosed : l.isUnclosed = true) (rest : List Char) :
    lexemes (cs ++ '\n' :: rest) =
      ls ++ ⟨.string, l.text ++ '\n' :: (Lexeme.splitQuote rest).1⟩ :: lexemes (Lexeme.splitQuote rest).2 := by
  obtain ⟨body, hbody, ht⟩ := exists_text_of_unclosed h unclosed
  obtain ⟨hcs, -⟩ := lexemes_of_append cs ls [l] h
  have hlonger : '"' ∉ body ++ ['\n'] := by simpa using hbody
  have hfront := lexemes_textOf_append cs ls [l] (l.text ++ '\n' :: rest) h
    (stopsBefore_of_lexemes h (by rintro c ⟨⟩; decide)) (by rw [ht]; rintro c ⟨⟩; decide)
  rw [hcs, Lexeme.textOf_cons, Lexeme.textOf_nil, List.append_nil, List.append_assoc, hfront, ht, List.cons_append,
    lexemes_cons, Lexeme.ofChar_of_quote, List.append_cons body, Lexeme.Shape.extent,
    Lexeme.splitQuote_append_of_notMem hlonger, List.append_assoc]
  rfl

theorem closed_of_append_newline {cs : List Char}
    (closed : ∀ l ∈ (lexemes (cs ++ ['\n'])).getLast?, l.isUnclosed = false) :
    ∀ l ∈ (lexemes cs).getLast?, l.isUnclosed = false := by
  intro l hl
  obtain ⟨ls, hls⟩ := List.getLast?_eq_some_iff.1 hl
  rw [Bool.eq_false_iff]
  intro unclosed
  obtain ⟨body, hbody, ht⟩ := exists_text_of_unclosed hls unclosed
  rw [lexemes_append_newline_of_unclosed hls unclosed, Lexeme.splitQuote_of_notMem List.not_mem_nil, lexemes_nil] at closed
  have hlonger : '"' ∈ (l.text ++ ['\n']).tail :=
    Lexeme.mem_tail_of_closed (closed _ (List.getLast?_concat ..)) rfl
  rw [ht] at hlonger
  exact hbody (by simpa using hlonger)

/-! ## Trivia at the end of a line -/

/-- What may stand at the end of a line without a token: white space, and a comment after it. -/
inductive LineTrivia : List Char → Prop
  | nil : LineTrivia []
  | gap {c cs} (h : isGap c = true) (more : LineTrivia cs) : LineTrivia (c :: cs)
  | comment {body} (line : '\n' ∉ body) : LineTrivia ('#' :: body)

namespace LineTrivia

variable {w : List Char} (h : LineTrivia w)
include h

theorem newline_notMem : '\n' ∉ w := by
  induction h with
  | nil => exact List.not_mem_nil
  | gap hc _ ih =>
    rw [List.mem_cons, not_or]
    exact ⟨Ne.symm ((Text.isGap_iff _).1 hc).2, ih⟩
  | comment line =>
    rw [List.mem_cons, not_or]
    exact ⟨by decide, line⟩

theorem head (rest : List Char) : ∃ c cs, w ++ '\n' :: rest = c :: cs ∧ (isBlank c = true ∨ c = '#') := by
  cases h with
  | nil => exact ⟨_, _, rfl, Or.inl Text.isBlank_newline⟩
  | gap hc => exact ⟨_, _, rfl, Or.inl ((Text.isGap_iff _).1 hc).1⟩
  | comment => exact ⟨_, _, rfl, Or.inr rfl⟩

theorem not_digit_of_head (rest : List Char) : ∀ c ∈ (w ++ '\n' :: rest).head?, c.isDigit = false := by
  obtain ⟨d, ds, hhead, hd⟩ := h.head rest
  rw [hhead]
  rintro _ ⟨⟩
  exact (Lexeme.part_of_trivia hd).2.1

theorem shape_of_mem_lexemes : ∀ l ∈ lexemes w, l.shape = .gap ∨ l.shape = .comment := by
  induction h with
  | nil =>
    rw [lexemes_nil]
    exact fun _ hl => absurd hl List.not_mem_nil
  | @gap c cs hc _ ih =>
    rw [lexemes_cons, (Lexeme.ofChar_eq_gap_iff c).2 hc, List.forall_mem_cons]
    refine ⟨Or.inl rfl, fun l hl => ih l ?_⟩
    rw [Lexeme.Shape.extent, ← lexemes_dropWhile_gap] at hl
    exact (List.dropWhile_sublist _).subset hl
  | @comment body line =>
    have hbody : ∀ c ∈ body, (c != '\n') = true := Lexeme.bne_of_notMem line
    rw [lexemes_cons, (Lexeme.ofChar_eq_comment_iff '#').2 rfl, Lexeme.Shape.extent, List.dropWhile_eq_nil_iff.2 hbody,
      lexemes_nil]
    exact fun l hl => Or.inr (congrArg Lexeme.shape (List.mem_singleton.1 hl))

/-- Trivia at the end of a line is white space and comments before the newline. -/
theorem exists_lexemes (rest : List Char) : ∃ ls, lexemes (w ++ '\n' :: rest) = ls ++ ⟨.newline, ['\n']⟩ :: lexemes rest ∧
    textOf ls = w ∧ ∀ l ∈ ls, l.shape = .gap ∨ l.shape = .comment := by
  refine ⟨lexemes w, lexemes_append_newline w rest fun l hl => ?_, flatMap_text_lexemes w, h.shape_of_mem_lexemes⟩
  refine Lexeme.isUnclosed_of_ne_string fun hstring => ?_
  rcases h.shape_of_mem_lexemes l (List.mem_of_getLast? hl) with hshape | hshape <;> rw [hstring] at hshape <;>
    cases hshape

end LineTrivia

theorem lineTrivia_append_gaps {g w : List Char} (hg : ∀ c ∈ g, isGap c = true) (hw : LineTrivia w) :
    LineTrivia (g ++ w) := by
  induction g with
  | nil => exact hw
  | cons c g ih =>
    rw [List.forall_mem_cons] at hg
    exact .gap hg.1 (ih hg.2)

/-- White space or a comment at the end of a text grows with the trivia that is put after it. -/
theorem lineTrivia_text_append {l : Lexeme} {rest : List Char} (fits : l.Fits rest)
    (hl : l.shape = .gap ∨ l.shape = .comment) {w : List Char} (hw : LineTrivia w) : LineTrivia (l.text ++ w) := by
  obtain ⟨c, cs, ht, hs, he⟩ := fits
  rw [ht]
  rcases hl with hgap | hcomment
  · rw [hgap] at hs he
    obtain ⟨run, -⟩ := Lexeme.takeWhile_and_dropWhile_append_iff.1 (Prod.mk.inj he)
    exact lineTrivia_append_gaps (List.forall_mem_cons.2 ⟨(Lexeme.ofChar_eq_gap_iff c).1 hs.symm, run⟩) hw
  · rw [hcomment] at hs he
    obtain ⟨run, -⟩ := Lexeme.takeWhile_and_dropWhile_append_iff.1 (Prod.mk.inj he)
    obtain rfl := (Lexeme.ofChar_eq_comment_iff c).1 hs.symm
    refine .comment fun hnewline => ?_
    rcases List.mem_append.1 hnewline with hnewline | hnewline
    · exact absurd (run _ hnewline) (by decide)
    · exact hw.newline_notMem hnewline

/-- A text is cut alike, whatever trivia ends its last line: at some place, after which there is only trivia. -/
theorem exists_cut_before_trivia (cs : List Char) (closed : ∀ l ∈ (lexemes cs).getLast?, l.isUnclosed = false) :
    ∃ ls v, (∀ w, LineTrivia w → LineTrivia (v ++ w)) ∧
      ∀ w rest, LineTrivia w → lexemes (cs ++ (w ++ '\n' :: rest)) = ls ++ lexemes (v ++ w ++ '\n' :: rest) := by
  rcases List.eq_nil_or_concat' (lexemes cs) with h | ⟨ls, l, h⟩
  · have hcs : cs = [] := by rw [← flatMap_text_lexemes cs, h, List.flatMap_nil]
    subst hcs
    exact ⟨[], [], fun _ hw => hw, fun _ _ _ => rfl⟩
  · obtain ⟨hcs, hcut⟩ := lexemes_of_append cs ls [l] h
    obtain ⟨_, -, fits, -⟩ := fits_of_lexemes _ l [] hcut
    by_cases hl : l.shape = .gap ∨ l.shape = .comment
    · -- the last lexeme is trivia and may grow
      refine ⟨ls, l.text, fun w => lineTrivia_text_append fits hl, fun w rest hw => ?_⟩
      have hgrown := (lineTrivia_text_append fits hl hw).not_digit_of_head rest
      rw [List.append_assoc] at hgrown
      rw [hcs, Lexeme.textOf_cons, Lexeme.textOf_nil, List.append_nil, List.append_assoc, List.append_assoc]
      exact lexemes_textOf_append cs ls [l] _ h (stopsBefore_of_lexemes h (hw.not_digit_of_head rest)) hgrown
    · -- the last lexeme stays, and what comes after it is cut on its own
      rw [not_or] at hl
      refine ⟨ls ++ [l], [], fun _ hw => hw, fun w rest hw => ?_⟩
      have hstops : ∀ k ∈ (ls ++ [l]).getLast?, k.StopsBefore (w ++ '\n' :: rest) := by
        obtain ⟨d, ds, hhead, hd⟩ := hw.head rest
        rw [hhead, ← h]
        intro k hk
        obtain rfl : l = k := by simpa [h] using hk
        exact Lexeme.stopsBefore_trivia (closed l hk) hl.1 hl.2 hd ds
      rw [hcs, ← Lexeme.textOf_append]
      exact lexemes_textOf_append cs (ls ++ [l]) [] _ (by rw [h, List.append_nil]) hstops (hw.not_digit_of_head rest)

end ExprLang
