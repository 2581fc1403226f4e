import Mathlib.Data.List.Induction
import ExprLang.Proofs.Lexeme.Boundary
import ExprLang.Proofs.Token.Content

/-!
# What stands between the tokens

* `positionAfter` : where a text ends, by its newlines, `start_after`;
* `Trivia` : white space and comments;
* `Lexeme.text_of_silent`, `trivia_of_fits` : the lexemes that make no token are trivia;
* `tokensFrom_of_trivia` : trivia makes no tokens.
-/

namespace ExprLang

open Text (isBlank isGap)
open Lexeme (Fits tokensFrom)

/-! ## Positions -/

/-- The position of what comes after the text `before`: its newlines count the lines, and the characters after the
last of them the columns. -/
def positionAfter (before : List Char) : Position where
  line := 1 + before.count '\n'
  column := (before.reverse.takeWhile (· != '\n')).length

theorem start_after (before : List Char) : Position.start.after before = positionAfter before := by
  induction before using List.reverseRecOn with
  | nil => rfl
  | append_singleton cs c ih =>
    rw [Position.after_append, ih]
    by_cases h : c = '\n'
    · subst h
      simp [positionAfter, Nat.add_assoc]
    · simp [positionAfter, Position.next, h]

theorem after_positionAfter (before cs : List Char) :
    (positionAfter before).after cs = positionAfter (before ++ cs) := by
  rw [← start_after, ← start_after, Position.after_append]

theorem Position.eq_nil_of_after_eq (p : Position) (cs : List Char) (h : p.after cs = p) : cs = [] := by
  have hline := congrArg Position.line h
  rw [line_after] at hline
  have hnewline : '\n' ∉ cs := List.count_eq_zero.1 (by omega)
  have hcolumn := congrArg Position.column h
  rw [after_of_notMem p cs hnewline] at hcolumn
  exact List.eq_nil_of_length_eq_zero (Nat.add_eq_left.1 hcolumn)

/-- Two parts at the front of a text that end at the same position are the same. -/
theorem eq_of_positionAfter_eq {xs ys xs' ys' : List Char} (h : xs ++ ys = xs' ++ ys')
    (position : positionAfter xs = positionAfter xs') : xs = xs' := by
  rw [← start_after, ← start_after] at position
  rcases List.append_eq_append_iff.1 h with ⟨zs, rfl, -⟩ | ⟨zs, rfl, -⟩
  · rw [Position.after_append] at position
    rw [Position.eq_nil_of_after_eq _ zs position.symm, List.append_nil]
  · rw [Position.after_append] at position
    rw [Position.eq_nil_of_after_eq _ zs position, List.append_nil]

/-! ## White space and comments -/

/-- `Trivia cs rest` : white space and comments lead from the front of `cs` to its end part `rest`. A comment runs from
a hash sign to the next newline, or to the end. -/
inductive Trivia : List Char → List Char → Prop
  | refl {cs} : Trivia cs cs
  | blank {c cs rest} (h : isBlank c = true) (more : Trivia cs rest) : Trivia (c :: cs) rest
  | comment {body cs rest} (line : '\n' ∉ body) (stop : ∀ c ∈ cs.head?, c = '\n') (more : Trivia cs rest) :
      Trivia ('#' :: (body ++ cs)) rest

theorem Trivia.trans {cs ds es : List Char} (h : Trivia cs ds) (h' : Trivia ds es) : Trivia cs es := by
  induction h with
  | refl => exact h'
  | blank hc _ ih => exact .blank hc (ih h')
  | comment line stop _ ih => exact .comment line stop (ih h')

theorem trivia_of_forall_isBlank (cs rest : List Char) (h : ∀ c ∈ cs, isBlank c = true) : Trivia (cs ++ rest) rest := by
  induction cs with
  | nil => exact .refl
  | cons c cs ih =>
    rw [List.forall_mem_cons] at h
    exact .blank h.1 (ih h.2)

/-! ## The lexemes of trivia -/

/-- What makes no token is white space, or a comment that ends with its line. -/
theorem Lexeme.text_of_silent {l : Lexeme} {rest : List Char} (fits : l.Fits rest) (h : l.kind? = none) :
    (∀ c ∈ l.text, isBlank c = true) ∨
      ∃ body, l.text = '#' :: body ∧ '\n' ∉ body ∧ ∀ c ∈ rest.head?, c = '\n' := by
  obtain ⟨d, cs, ht, hs, he⟩ := id fits
  cases hshape : l.shape with
  | gap =>
    rw [hshape] at hs he
    have hgap : isGap d = true := (ofChar_eq_gap_iff d).1 hs.symm
    rw [ht, List.forall_mem_cons]
    refine Or.inl ⟨((Text.isGap_iff d).1 hgap).1, fun c hc => ?_⟩
    rw [← (Prod.mk.inj he).1] at hc
    exact ((Text.isGap_iff c).1 (List.all_eq_true.1 List.all_takeWhile c hc)).1
  | newline =>
    rw [text_of_newline l rest fits hshape]
    exact Or.inl (List.forall_mem_singleton.2 Text.isBlank_newline)
  | comment =>
    rw [hshape] at hs he
    have hd := (ofChar_eq_comment_iff d).1 hs.symm
    obtain ⟨hcs, hrest⟩ := Prod.mk.inj he
    refine Or.inr ⟨cs, by rw [ht, hd], ?_, fun c hc => ?_⟩
    · rw [← hcs]
      exact notMem_takeWhile rfl
    · rw [← hrest] at hc
      simpa using stops_dropWhile c hc
  | word | number | string | operators | opening | closing | single => simp [kind?, hshape] at h

/-- A lexeme that makes no token is trivia. -/
theorem trivia_of_fits (l : Lexeme) (rest : List Char) (fits : l.Fits rest) (h : l.kind? = none) :
    Trivia (l.text ++ rest) rest := by
  obtain hblank | ⟨body, htext, line, stop⟩ := Lexeme.text_of_silent fits h
  · exact trivia_of_forall_isBlank l.text rest hblank
  · rw [htext]
    exact .comment line stop .refl

/-- The rest of a run of white space makes no token. -/
theorem tokensFrom_dropWhile_gap (p : Position) (cs : List Char) :
    tokensFrom p (lexemes cs) = tokensFrom (p.after (cs.takeWhile isGap)) (lexemes (cs.dropWhile isGap)) := by
  cases cs with
  | nil => rfl
  | cons c cs =>
    by_cases hc : isGap c = true
    · rw [lexemes_cons, (Lexeme.ofChar_eq_gap_iff c).2 hc, List.takeWhile_cons_of_pos hc, List.dropWhile_cons_of_pos hc]
      rfl
    · rw [List.takeWhile_cons_of_neg hc, List.dropWhile_cons_of_neg hc]
      rfl

/-- The tokens after trivia are those of the text that follows it. -/
theorem tokensFrom_of_trivia {cs rest : List Char} (h : Trivia cs rest) (p : Position) :
    ∃ gap, cs = gap ++ rest ∧ tokensFrom p (lexemes cs) = tokensFrom (p.after gap) (lexemes rest) := by
  induction h generalizing p with
  | refl => exact ⟨[], rfl, rfl⟩
  | @blank c cs rest hc _ ih =>
    obtain ⟨gap, hgap, htokens⟩ := ih (p.next c)
    refine ⟨c :: gap, by rw [hgap, List.cons_append], ?_⟩
    rw [Position.after_cons, ← htokens]
    by_cases hnewline : c = '\n'
    · rw [lexemes_cons, (Lexeme.ofChar_eq_newline_iff c).2 hnewline]
      rfl
    · have hshape := (Lexeme.ofChar_eq_gap_iff c).2 ((Text.isGap_iff c).2 ⟨hc, hnewline⟩)
      rw [lexemes_cons, hshape, tokensFrom_dropWhile_gap (p.next c)]
      rfl
  | @comment body cs rest line stop _ ih =>
    obtain ⟨gap, hgap, htokens⟩ := ih (p.after ('#' :: body))
    have hbody : ∀ c ∈ body, (c != '\n') = true := Lexeme.bne_of_notMem line
    have hstop : ∀ c ∈ cs.head?, (c != '\n') = false := fun c hc => by rw [stop c hc]; rfl
    have fits : Fits ⟨.comment, '#' :: body⟩ cs :=
      ⟨'#', body, rfl, ((Lexeme.ofChar_eq_comment_iff '#').2 rfl).symm, Lexeme.cut_of_run hbody hstop⟩
    refine ⟨'#' :: body ++ gap, by rw [hgap, List.append_assoc, List.cons_append], ?_⟩
    rw [Position.after_append, ← htokens, ← List.cons_append]
    exact congrArg (tokensFrom p) (Lexeme.lexemes_of_fits _ cs fits)

end ExprLang
