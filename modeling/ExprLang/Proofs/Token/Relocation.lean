import Mathlib.Data.List.Forall2
import Mathlib.Data.List.TakeWhile
import ExprLang.Proofs.Token.Content

/-!
# Scans of parts of a text

A scan of a text is one scan after another, and a scan that starts elsewhere brings the same tokens elsewhere.

* `Scan.run` : the tokens from a place to the end of the text;
* `Scan.run_append` : a scan of some lexemes, and then of others;
* `Token.Moved`, `Scan.run_moved` : the tokens of two scans that differ in their positions alone;
* `Token.move`, `Token.down`, `Scan.run_down` : tokens in other lines and columns;
* `Scan.tokens_of_no_indent` : a text without blocks has no marks at all;
* `Scan.run_eq_marks_append` : the front of a line brings its marks;
* `Scan.run_gaps` : white space within a line only moves what comes after it;
* `Filler`, `Scan.run_filler` : white space and comments inside brackets only move what comes after them.
-/

namespace ExprLang

open Text (isBlank isGap)
open Lexeme (textOf tokensFrom)

namespace Scan

/-- The tokens that the lexemes bring if the text ends with them. -/
def run (s : Scan) (ls : List Lexeme) : List Token := s.tokens ls ++ (s.last ls).finish

theorem run_cons (s : Scan) (l : Lexeme) (ls : List Lexeme) : s.run (l :: ls) = s.emit l ls ++ (s.step l ls).run ls := by
  rw [run, tokens, last, List.append_assoc, run]

end Scan

theorem tokenize_eq_run (source : String) : tokenize source = Scan.run {} (lexemes source.toList) := rfl

/-! ## One scan after another -/

/-- Whether a line is significant is decided by its first lexemes, unless they end in white space. -/
theorem Layout.isSignificant_append (xs ys : List Lexeme) (hne : xs ≠ [])
    (h : ∀ l ∈ xs.getLast?, l.shape = .gap → isSignificant ys = false) : isSignificant (xs ++ ys) = isSignificant xs := by
  unfold isSignificant
  rw [List.dropWhile_append]
  cases hdrop : xs.dropWhile (·.shape == .gap) with
  | nil =>
    have hgap : (xs.getLast hne).shape = .gap :=
      eq_of_beq (List.dropWhile_eq_nil_iff.1 hdrop _ (List.getLast_mem hne))
    exact h _ (List.getLast?_eq_some_getLast hne) hgap
  | cons l ls => rfl

namespace Scan

section

variable (s : Scan) {l : Lexeme} {xs ys : List Lexeme}

theorem startsLine_append (hne : xs ≠ []) (h : ∀ l ∈ xs.getLast?, l.shape = .gap → Layout.isSignificant ys = false) :
    s.startsLine (xs ++ ys) = s.startsLine xs := by
  rw [startsLine, startsLine, Layout.isSignificant_append xs ys hne h]

theorem emit_append (h : ∀ k ∈ (l :: xs).getLast?, k.shape = .gap → Layout.isSignificant ys = false) :
    s.emit l (xs ++ ys) = s.emit l xs := by
  have hstarts := s.startsLine_append (List.cons_ne_nil l xs) h
  rw [emit, emit, marks, marks, ← List.cons_append, hstarts]
  rfl

theorem step_append (h : ∀ k ∈ (l :: xs).getLast?, k.shape = .gap → Layout.isSignificant ys = false) :
    s.step l (xs ++ ys) = s.step l xs := by
  have hstarts := s.startsLine_append (List.cons_ne_nil l xs) h
  rw [step, step, ← List.cons_append, hstarts]
  rfl

/-- A scan of some lexemes, and then of others. If the first ones end in white space, no line may start there. -/
theorem run_append (h : ∀ l ∈ xs.getLast?, l.shape = .gap → Layout.isSignificant ys = false) :
    s.run (xs ++ ys) = s.tokens xs ++ (s.last xs).run ys := by
  induction xs generalizing s with
  | nil => rfl
  | cons l xs ih =>
    have hlater : ∀ k ∈ xs.getLast?, k.shape = .gap → Layout.isSignificant ys = false := by
      intro k hk
      cases xs with
      | nil => cases hk
      | cons x xs => exact h k hk
    rw [List.cons_append, run_cons, s.emit_append h, s.step_append h, ih (s.step l xs) hlater, tokens, last,
      List.append_assoc]

/-- After a token anything may come. -/
theorem run_append_of_token (hl : l.kind? ≠ none) :
    s.run (xs ++ [l] ++ ys) = s.tokens (xs ++ [l]) ++ (s.last (xs ++ [l])).run ys := by
  refine s.run_append fun k hk hgap => ?_
  rw [List.getLast?_concat, Option.mem_some_iff] at hk
  subst hk
  exact absurd (by rw [Lexeme.kind?, hgap]) hl

end

end Scan

/-! ## A scan elsewhere -/

/-- Whether every character keeps two positions in the relation, and so does a column that both are given. -/
structure Position.Carries (R : Position → Position → Prop) : Prop where
  next : ∀ p q c, R p q → R (p.next c) (q.next c)
  column : ∀ (p q : Position) w, R p q → R ⟨p.line, w⟩ ⟨q.line, w⟩

theorem Position.Carries.after {R : Position → Position → Prop} (h : Carries R) (p q : Position) (cs : List Char)
    (hpq : R p q) : R (p.after cs) (q.after cs) := by
  induction cs generalizing p q with
  | nil => exact hpq
  | cons c cs ih => exact ih _ _ (h.next p q c hpq)

/-- Whether two tokens differ in their positions alone, which are in the relation. -/
structure Token.Moved (R : Position → Position → Prop) (t u : Token) : Prop where
  position : R t.toPosition u.toPosition
  kind : u.kind = t.kind
  text : u.text = t.text

namespace Scan

section

variable {R : Position → Position → Prop}

theorem forall₂_moved_mark (p q : Position) (kinds : List Token.Kind) (h : R p q) :
    List.Forall₂ (Token.Moved R) (kinds.map (mark p)) (kinds.map (mark q)) := by
  induction kinds with
  | nil => exact .nil
  | cons k kinds ih => exact .cons ⟨h, rfl, rfl⟩ ih

variable (carries : Position.Carries R)
include carries

theorem emit_moved (s : Scan) (q : Position) (h : R s.position q) (l : Lexeme) (ls : List Lexeme) :
    List.Forall₂ (Token.Moved R) (s.emit l ls) ({ s with position := q }.emit l ls) := by
  refine List.rel_append ?_ ?_
  · show List.Forall₂ _ (s.marks _) (if s.startsLine _ then _ else _)
    unfold marks
    split
    · exact forall₂_moved_mark _ _ _ (carries.column _ _ _ h)
    · exact .nil
  · cases hk : l.kind? with
    | none =>
      rw [Lexeme.token?, Lexeme.token?, hk]
      exact .nil
    | some k =>
      rw [Lexeme.token?, Lexeme.token?, hk]
      exact .cons ⟨h, rfl, rfl⟩ .nil

/-- The tokens of a scan that starts elsewhere, but outside and inside the same brackets and blocks. -/
theorem run_moved (s : Scan) (q : Position) (h : R s.position q) (ls : List Lexeme) :
    List.Forall₂ (Token.Moved R) (s.run ls) ({ s with position := q }.run ls) := by
  induction ls generalizing s q with
  | nil =>
    show List.Forall₂ _ (s.layout.closing.map _ ++ _) (s.layout.closing.map _ ++ _)
    exact List.rel_append (forall₂_moved_mark _ _ _ h) (.cons ⟨h, rfl, rfl⟩ .nil)
  | cons l ls ih =>
    rw [run_cons, run_cons]
    exact List.rel_append (emit_moved carries s q h l ls) (ih (s.step l ls) (q.after l.text) (carries.after _ _ _ h))

end

end Scan

/-! ## A scan further down -/

def Token.move (f : Nat → Nat) (c : Nat → Nat → Nat) (t : Token) : Token :=
  { t with line := f t.line, column := c t.line t.column }

def Position.down (k : Nat) (p : Position) : Position := ⟨p.line + k, p.column⟩

def Token.down (k : Nat) (t : Token) : Token := t.move (· + k) fun _ column => column

theorem Position.carries_down (k : Nat) : Carries fun p q => q = p.down k where
  next := by
    rintro p _ c rfl
    by_cases hc : c = '\n'
    · rw [hc, next_newline, next_newline, down, down, Nat.add_right_comm]
    · simp only [next, if_neg hc, down]
  column := by
    rintro p _ w rfl
    rfl

theorem eq_map_down_of_moved (k : Nat) {ts us : List Token}
    (h : List.Forall₂ (Token.Moved fun p q => q = p.down k) ts us) : us = ts.map (Token.down k) := by
  induction h with
  | nil => rfl
  | @cons t u ts us ht _ ih =>
    obtain ⟨⟨line, column⟩, kind, text⟩ := u
    obtain ⟨hposition, rfl, rfl⟩ := ht
    obtain ⟨rfl, rfl⟩ := Position.mk.inj hposition
    rw [ih]
    rfl

/-- A scan that starts `k` lines further down brings its tokens `k` lines further down. -/
theorem Scan.run_down (s : Scan) (k : Nat) (ls : List Lexeme) :
    { s with position := s.position.down k }.run ls = (s.run ls).map (Token.down k) :=
  eq_map_down_of_moved k (s.run_moved (Position.carries_down k) _ rfl ls)

namespace Scan

/-! ## A text without blocks -/

theorem marks_of_unindented (s : Scan) (ls : List Lexeme) (hs : s.layout = {})
    (h : s.startsLine ls = true → Layout.widthOf ls = 0) : s.marks ls = [] := by
  unfold marks
  split
  · next hstarts =>
    rw [hs, h hstarts]
    rfl
  · rfl

theorem layout_step_of_unindented (s : Scan) (l : Lexeme) (ls : List Lexeme) (hs : s.layout = {})
    (h : s.startsLine (l :: ls) = true → Layout.widthOf (l :: ls) = 0) : (s.step l ls).layout = {} := by
  unfold step
  split
  · next hstarts =>
    rw [hs, h hstarts]
    rfl
  · exact hs

/-- Where no block is open, a line that is indented opens one. -/
theorem widthOf_eq_zero_of_no_indent (s : Scan) (ls : List Lexeme) (hs : s.layout = {})
    (h : ∀ t ∈ s.marks ls, t.kind ≠ .indent) (hstarts : s.startsLine ls = true) : Layout.widthOf ls = 0 := by
  by_contra hw
  have hmark : mark ⟨s.position.line, Layout.widthOf ls⟩ .indent ∈ s.marks ls := by
    rw [marks, if_pos hstarts, hs, Layout.marks, if_pos (Nat.pos_of_ne_zero hw)]
    exact List.mem_singleton.2 rfl
  exact h _ hmark rfl

/-- A text that opens no block has no marks at all. -/
theorem tokens_of_no_indent (s : Scan) (ls : List Lexeme) (hs : s.layout = {})
    (h : ∀ t ∈ s.tokens ls, t.kind ≠ .indent) : s.tokens ls = tokensFrom s.position ls ∧ (s.last ls).layout = {} := by
  induction ls generalizing s with
  | nil => exact ⟨rfl, hs⟩
  | cons l ls ih =>
    rw [tokens, List.forall_mem_append, emit, List.forall_mem_append] at h
    have hwidth := s.widthOf_eq_zero_of_no_indent (l :: ls) hs h.1.1
    obtain ⟨htokens, hlast⟩ := ih (s.step l ls) (s.layout_step_of_unindented l ls hs hwidth) h.2
    refine ⟨?_, hlast⟩
    rw [tokens, emit, s.marks_of_unindented (l :: ls) hs hwidth, htokens]
    rfl

end Scan

/-! ## The front of a line -/

namespace Scan

/-- The front of a line brings its marks, and then it does not matter that a line starts. -/
theorem run_eq_marks_append (s : Scan) (ls : List Lexeme) : s.run ls = s.marks ls ++
    { s with
      layout := if s.startsLine ls then s.layout.move (Layout.widthOf ls) else s.layout
      atLineStart := false }.run ls := by
  cases ls with
  | nil =>
    have hnone : s.startsLine [] = false := by
      rw [startsLine]
      exact Bool.and_false _
    rw [marks, hnone]
    rfl
  | cons l ls =>
    rw [run_cons, emit, List.append_assoc, run_cons]
    rfl

section

variable (s : Scan) (hs : ∀ ls, s.startsLine ls = false)
include hs

theorem run_gap_cons_of_no_start (l : Lexeme) (ls : List Lexeme) (hl : l.shape = .gap) :
    s.run (l :: ls) = { s with position := s.position.after l.text, atLineStart := false }.run ls := by
  have hsilent : l.kind? = none := by rw [Lexeme.kind?, hl]
  rw [run_cons, emit, marks, step, hs, Lexeme.token?_of_silent hsilent, Lexeme.brackets_of_silent hsilent, hl]
  rfl

/-- A blank character where no line starts moves the text, also if it joins the white space after it. -/
theorem run_gap_of_no_start (c : Char) (cs : List Char) (hc : isGap c = true) : s.run (lexemes (c :: cs)) =
    { s with position := s.position.next c, atLineStart := false }.run (lexemes cs) := by
  have hshape : ∀ d, isGap d = true → Lexeme.Shape.ofChar d = .gap := fun d => (Lexeme.ofChar_eq_gap_iff d).2
  rw [lexemes_cons, hshape c hc, s.run_gap_cons_of_no_start hs _ _ rfl]
  cases cs with
  | nil => rfl
  | cons d ds =>
    by_cases hd : isGap d = true
    · have hlater : ∀ ls, Scan.startsLine { s with position := s.position.next c, atLineStart := false } ls = false :=
        fun _ => rfl
      rw [lexemes_cons d, hshape d hd, run_gap_cons_of_no_start _ hlater _ _ rfl]
      simp only [Lexeme.Shape.extent, List.takeWhile_cons_of_pos hd, List.dropWhile_cons_of_pos hd,
        Position.after_cons]
    · simp only [Lexeme.Shape.extent, List.takeWhile_cons_of_neg hd, List.dropWhile_cons_of_neg hd,
        Position.after_cons, Position.after_nil]

end

/-- White space within a line only moves what comes after it. -/
theorem run_gaps (s : Scan) (hs : s.atLineStart = false) (g cs : List Char) (hg : ∀ c ∈ g, isGap c = true) :
    s.run (lexemes (g ++ cs)) = { s with position := s.position.after g }.run (lexemes cs) := by
  induction g generalizing s with
  | nil => rfl
  | cons c g ih =>
    obtain ⟨hc, hg⟩ := List.forall_mem_cons.1 hg
    have hstart : ∀ ls, s.startsLine ls = false := fun ls => by rw [startsLine, hs]; rfl
    rw [List.cons_append, s.run_gap_of_no_start hstart c _ hc, ih _ rfl hg, ← hs]
    rfl

end Scan

/-! ## White space and comments inside brackets -/

/-- White space, and comments each of which a newline ends. -/
inductive Filler : List Char → Prop
  | nil : Filler []
  | blank {c cs} (h : isBlank c = true) (more : Filler cs) : Filler (c :: cs)
  | comment {body cs} (line : '\n' ∉ body) (more : Filler cs) : Filler ('#' :: (body ++ '\n' :: cs))

namespace Scan

section

variable (s : Scan) (hs : s.brackets ≠ 0)
include hs

theorem startsLine_of_brackets (ls : List Lexeme) : s.startsLine ls = false := by
  rw [startsLine, beq_false_of_ne hs, Bool.and_false, Bool.false_and]

theorem run_cons_of_brackets (l : Lexeme) (ls : List Lexeme) : s.run (l :: ls) =
    (l.token? s.position).toList ++
      run ⟨s.position.after l.text, l.brackets s.brackets, s.layout, l.shape == .newline⟩ ls := by
  rw [run_cons, emit, marks, step, s.startsLine_of_brackets hs]
  rfl

/-- Inside brackets it does not matter whether a line starts. -/
theorem run_of_brackets (start : Bool) (ls : List Lexeme) : { s with atLineStart := start }.run ls = s.run ls := by
  cases ls with
  | nil => rfl
  | cons l ls => rw [s.run_cons_of_brackets hs, run_cons_of_brackets { s with atLineStart := start } hs]

theorem run_silent (l : Lexeme) (ls : List Lexeme) (hl : l.kind? = none) :
    s.run (l :: ls) = { s with position := s.position.after l.text }.run ls := by
  rw [s.run_cons_of_brackets hs, Lexeme.token?_of_silent hl, Lexeme.brackets_of_silent hl]
  exact run_of_brackets { s with position := s.position.after l.text } hs (l.shape == .newline) ls

/-- A blank character in front moves the text, also if it joins the white space after it. -/
theorem run_gap (c : Char) (cs : List Char) (hc : isGap c = true) :
    s.run (lexemes (c :: cs)) = { s with position := s.position.next c }.run (lexemes cs) := by
  rw [s.run_gap_of_no_start (s.startsLine_of_brackets hs) c cs hc]
  exact run_of_brackets { s with position := s.position.next c } hs false (lexemes cs)

theorem run_newline (cs : List Char) :
    s.run (lexemes ('\n' :: cs)) = { s with position := s.position.next '\n' }.run (lexemes cs) := by
  rw [lexemes_cons, (Lexeme.ofChar_eq_newline_iff '\n').2 rfl]
  exact s.run_silent hs _ _ rfl

theorem run_comment (body cs : List Char) (hbody : '\n' ∉ body) : s.run (lexemes ('#' :: (body ++ '\n' :: cs))) =
    { s with position := s.position.after ('#' :: body) }.run (lexemes ('\n' :: cs)) := by
  have hextent : Lexeme.Shape.comment.extent (body ++ '\n' :: cs) = (body, '\n' :: cs) := by
    have hline : ∀ c ∈ body, (c != '\n') = true := Lexeme.bne_of_notMem hbody
    have hstop : ∀ c ∈ ('\n' :: cs).head?, (c != '\n') = false := by rintro c ⟨⟩; rfl
    obtain ⟨htake, hdrop⟩ := Lexeme.takeWhile_and_dropWhile_append_iff.2 ⟨hline, hstop⟩
    rw [Lexeme.Shape.extent, htake, hdrop]
  rw [lexemes_cons, (Lexeme.ofChar_eq_comment_iff '#').2 rfl, hextent]
  exact s.run_silent hs _ _ rfl

/-- White space and comments inside brackets only move what comes after them. -/
theorem run_filler (g cs : List Char) (hg : Filler g) :
    s.run (lexemes (g ++ cs)) = { s with position := s.position.after g }.run (lexemes cs) := by
  induction hg generalizing s with
  | nil => rfl
  | @blank c g hc _ ih =>
    have hstep : s.run (lexemes (c :: (g ++ cs))) =
        { s with position := s.position.next c }.run (lexemes (g ++ cs)) := by
      by_cases hnewline : c = '\n'
      · rw [hnewline]
        exact s.run_newline hs (g ++ cs)
      · exact s.run_gap hs c (g ++ cs) ((Text.isGap_iff c).2 ⟨hc, hnewline⟩)
    rw [List.cons_append, hstep]
    exact ih { s with position := s.position.next c } hs
  | @comment body g line _ ih =>
    have happ : '#' :: (body ++ '\n' :: g) ++ cs = '#' :: (body ++ '\n' :: (g ++ cs)) := by
      rw [List.cons_append, List.append_assoc, List.cons_append]
    have hafter : s.position.after ('#' :: (body ++ '\n' :: g)) =
        ((s.position.after ('#' :: body)).next '\n').after g := by
      rw [← List.cons_append, Position.after_append, Position.after_cons]
    rw [happ, hafter, s.run_comment hs body _ line,
      run_newline { s with position := s.position.after ('#' :: body) } hs]
    exact ih { s with position := (s.position.after ('#' :: body)).next '\n' } hs

end

end Scan

end ExprLang
