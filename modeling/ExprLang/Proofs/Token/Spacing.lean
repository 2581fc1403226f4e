import ExprLang.Proofs.Token.Trivia

/-!
# Tokens with white space between them

The tokens of a text do not depend on what stood beside them: their texts, set apart by white space, are cut into the
same tokens again.

* `Spread` : texts one after another, with white space between them;
* `Lexeme.lexemes_alone`, `Lexeme.lexemes_of_blank` : a lexeme that makes a token is cut off as well if it stands alone,
  or before white space;
* `tokensFrom_of_spread_cons`, `spellings_tokensFrom_of_spread` : one text, and all texts, are cut into their tokens;
* `tokenize_spread` : the tokens of a text stay the same, up to the marks of blocks.
-/

namespace ExprLang

open Text (isBlank)
open Lexeme (Fits tokensFrom)

/-- `Spread texts cs` : the characters `cs` are the texts, in order, with white space between any two neighbours. -/
inductive Spread : List String → List Char → Prop
  | nil : Spread [] []
  | single {t} : Spread [t] t.toList
  | cons {t u ts cs} (gap : List Char) (wide : gap ≠ []) (blank : ∀ c ∈ gap, isBlank c = true)
      (more : Spread (u :: ts) cs) : Spread (t :: u :: ts) (t.toList ++ (gap ++ cs))

def Token.spelling (t : Token) : Token.Kind × String := (t.kind, t.text)

/-! ## Lexemes that lose their neighbours -/

namespace Lexeme

theorem stopsBefore_nil (l : Lexeme) : l.StopsBefore [] where
  run := by rintro _ ⟨⟩
  point := by rintro - - _ ⟨⟩
  quote _ _ := rfl

variable {l : Lexeme} {rest : List Char}

/-- Nothing comes after a string that is not closed. -/
theorem isUnclosed_of_fits (fits : l.Fits rest) (more : rest ≠ []) : l.isUnclosed = false := by
  rw [Bool.eq_false_iff]
  intro unclosed
  obtain ⟨hshape, hquote⟩ := Bool.and_eq_true_iff.1 unclosed
  exact more (fits.stopsBefore.quote (eq_of_beq hshape) (by simpa using hquote))

theorem lexemes_alone (fits : l.Fits rest) : lexemes l.text = [l] := by
  have h := lexemes_of_fits l [] (fits.of_stopsBefore l.stopsBefore_nil)
  rwa [List.append_nil, lexemes_nil] at h

/-- A lexeme that makes a token, and is not the last one, is cut off before white space as well. -/
theorem lexemes_of_blank (fits : l.Fits rest) (more : rest ≠ []) (token : l.kind? ≠ none) {c : Char}
    (hc : isBlank c = true) (cs : List Char) : lexemes (l.text ++ c :: cs) = l :: lexemes (c :: cs) := by
  have gap : l.shape ≠ .gap := fun h => token (by rw [kind?, h])
  have comment : l.shape ≠ .comment := fun h => token (by rw [kind?, h])
  have stops := stopsBefore_trivia (isUnclosed_of_fits fits more) gap comment (Or.inl hc) cs
  exact lexemes_of_fits l _ (fits.of_stopsBefore stops)

end Lexeme

/-! ## Tokens -/

/-- The token of a lexeme is cut off the front of its text, spread out before more texts. -/
theorem tokensFrom_of_spread_cons {l : Lexeme} {rest cs : List Char} {texts : List String} (fits : l.Fits rest)
    (token : l.kind? ≠ none) (more : texts ≠ [] → rest ≠ []) (h : Spread (String.ofList l.text :: texts) cs)
    (p : Position) :
    ∃ cs' q, Spread texts cs' ∧ tokensFrom p (lexemes cs) = (l.token? p).toList ++ tokensFrom q (lexemes cs') := by
  cases h with
  | single =>
    refine ⟨[], p.after l.text, .nil, ?_⟩
    rw [String.toList_ofList, Lexeme.lexemes_alone fits, lexemes_nil]
    rfl
  | @cons _ _ _ cs gap wide blank further =>
    obtain ⟨c, gap, rfl⟩ := List.exists_cons_of_ne_nil wide
    obtain ⟨gap', -, hgap⟩ := tokensFrom_of_trivia (trivia_of_forall_isBlank (c :: gap) cs blank) (p.after l.text)
    refine ⟨cs, (p.after l.text).after gap', further, ?_⟩
    rw [String.toList_ofList, List.cons_append,
      Lexeme.lexemes_of_blank fits (more (List.cons_ne_nil _ _)) token (blank c List.mem_cons_self), tokensFrom,
      ← List.cons_append, hgap]

/-- The texts of the tokens of a text, spread out, are cut into the same tokens. -/
theorem spellings_tokensFrom_of_spread {source cs : List Char} (p q : Position)
    (h : Spread ((tokensFrom p (lexemes source)).map Token.text) cs) :
    (tokensFrom q (lexemes cs)).map Token.spelling = (tokensFrom p (lexemes source)).map Token.spelling := by
  generalize hls : lexemes source = ls at h ⊢
  induction ls generalizing source cs p q with
  | nil =>
    cases h
    rw [lexemes_nil]
    rfl
  | cons l ls ih =>
    obtain ⟨rest, -, fits, rfl⟩ := fits_of_lexemes source l ls hls
    cases hk : l.kind? with
    | none =>
      rw [tokensFrom, Lexeme.token?_of_silent hk] at h ⊢
      exact ih (p.after l.text) q rfl h
    | some k =>
      have token : l.kind? ≠ none := by rw [hk]; exact Option.some_ne_none k
      rw [tokensFrom, Lexeme.token?, hk] at h
      have more : (tokensFrom (p.after l.text) (lexemes rest)).map Token.text ≠ [] → rest ≠ [] := by
        rintro hne rfl
        exact hne (by rw [lexemes_nil]; rfl)
      obtain ⟨cs, r, further, hcs⟩ := tokensFrom_of_spread_cons fits token more h q
      rw [hcs, tokensFrom, List.map_append, List.map_append, ih (p.after l.text) r rfl further, Lexeme.token?,
        Lexeme.token?, hk]
      rfl

/-- The texts of the tokens of a text, set apart by any white space, newlines among it, are cut into tokens of the same
kinds and texts, up to the marks of blocks. -/
theorem tokenize_spread (source spread : String)
    (h : Spread ((contentOf (tokenize source)).map Token.text) spread.toList) :
    ((tokenize spread).filter fun t => t.kind != .indent && t.kind != .dedent).map Token.spelling =
      (contentOf (tokenize source)).map Token.spelling ++ [(.endOfFile, "EOF")] := by
  rw [contentOf_tokenize] at h ⊢
  rw [filter_tokenize, contentOf_tokenize, List.map_append, spellings_tokensFrom_of_spread .start .start h]
  rfl

/-- A point after digits, a string that holds a hash sign and a newline, and one that is not closed, with a newline, a
tab and a no-break space between them. -/
theorem tokenize_spread_of_unclosed :
    Spread ((contentOf (tokenize "7.é#\n==\"# \n\"\"a")).map Token.text) "7\n .\té\u00a0== \"# \n\" \"a".toList ∧
      ((tokenize "7\n .\té\u00a0== \"# \n\" \"a").filter fun t => t.kind != .indent && t.kind != .dedent).map
          Token.spelling =
        [(.integerLiteral, "7"), (.operator, "."), (.operator, "é"), (.operator, "=="), (.stringLiteral, "\"# \n\""),
          (.stringLiteral, "\"a"), (.endOfFile, "EOF")] := by
  have htexts : (contentOf (tokenize "7.é#\n==\"# \n\"\"a")).map Token.text =
      ["7", ".", "é", "==", "\"# \n\"", "\"a"] := by decide +kernel
  have hspread : Spread ((contentOf (tokenize "7.é#\n==\"# \n\"\"a")).map Token.text)
      "7\n .\té\u00a0== \"# \n\" \"a".toList := by
    rw [htexts]
    have hspace : ∀ c ∈ [' '], isBlank c = true := List.forall_mem_singleton.2 Text.isBlank_space
    have htab : ∀ c ∈ ['\t'], isBlank c = true := List.forall_mem_singleton.2 (by decide)
    have hnoBreak : ∀ c ∈ ['\u00a0'], isBlank c = true := List.forall_mem_singleton.2 (by decide)
    have hlines : ∀ c ∈ ['\n', ' '], isBlank c = true := List.forall_mem_cons.2 ⟨Text.isBlank_newline, hspace⟩
    exact .cons _ (by decide) hlines (.cons _ (by decide) htab (.cons _ (by decide) hnoBreak
      (.cons _ (by decide) hspace (.cons _ (by decide) hspace .single))))
  refine ⟨hspread, (tokenize_spread _ _ hspread).trans ?_⟩
  decide +kernel

end ExprLang
