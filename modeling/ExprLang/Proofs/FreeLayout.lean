import ExprLang.Proofs.Accepted
import ExprLang.Proofs.Lexeme.Boundary
import ExprLang.Proofs.Token.Spelling

/-!
# Layout inside parentheses is free

White space, newlines among it, and comments may be put after any token that stands inside parentheses.

* `Filler.lexemes_append` : a token is cut as before if filler comes after it;
* `forall₂_liveTokens` : two scans that differ in positions alone see the end at the same token;
* `opened_le` : how many brackets are open, by the parentheses among the tokens;
* `Token.EndsText`, `parseProgram_tokenize_filler` : filler inside parentheses does not change what is read.
-/

namespace ExprLang

open Text (isBlank isGap)
open Lexeme (tokensFrom textOf isWordPart isWordStart isOperatorPart)
open Grammar (Statements Keeps Usable)

/-! ## Lexemes -/

theorem Filler.head {g : List Char} (h : Filler g) : ∀ c ∈ g.head?, isBlank c = true ∨ c = '#' := by
  rintro c hc
  cases h with
  | nil => cases hc
  | blank hblank =>
    cases hc
    exact Or.inl hblank
  | comment =>
    cases hc
    exact Or.inr rfl

/-- Some lexemes of a text, the last of which is a token, are cut as before if filler comes after them. -/
theorem Filler.lexemes_append {g cs : List Char} (hg : Filler g) {source : List Char} {done rest : List Lexeme}
    {l : Lexeme} (h : lexemes source = done ++ [l] ++ rest) (token : l.kind? ≠ none) (string : l.shape ≠ .string)
    (hcs : g = [] → cs = textOf rest) :
    lexemes (textOf (done ++ [l]) ++ (g ++ cs)) = done ++ [l] ++ lexemes (g ++ cs) := by
  cases g with
  | nil =>
    obtain ⟨htext, hrest⟩ := lexemes_of_append source _ rest h
    rw [List.nil_append, hcs rfl, ← htext, hrest, h]
  | cons c g =>
    have hc := hg.head c rfl
    refine lexemes_textOf_append source (done ++ [l]) rest (c :: g ++ cs) h ?_ ?_
    · intro k hk
      rw [List.getLast?_concat, Option.mem_some_iff] at hk
      rw [← hk]
      exact Lexeme.stopsBefore_trivia (Lexeme.isUnclosed_of_ne_string string) (fun hgap => token (by rw [Lexeme.kind?, hgap]))
        (fun hcomment => token (by rw [Lexeme.kind?, hcomment])) hc (g ++ cs)
    · rintro _ ⟨⟩
      exact (Lexeme.part_of_trivia hc).2.1

/-! ## Tokens -/

theorem Position.carries_line (k : Nat) : Carries fun p q => q.line = p.line + k where
  next p q c h := by
    by_cases hc : c = '\n'
    · rw [hc, next_newline, next_newline, h, Nat.add_right_comm]
    · simpa only [next, if_neg hc] using h
  column _ _ _ h := h

theorem forall₂_liveTokens {R : Position → Position → Prop} {ts us : List Token}
    (h : List.Forall₂ (Token.Moved R) ts us) : List.Forall₂ (Token.Moved R) (liveTokens ts) (liveTokens us) := by
  unfold liveTokens
  induction h with
  | nil => exact .nil
  | @cons t u ts us ht _ ih =>
    rw [List.takeWhile_cons, List.takeWhile_cons, ht.kind]
    split
    · exact .cons ht ih
    · exact .nil

/-! ## Open parentheses -/

theorem opened_le_of_usable (depth : Nat) {t : Token} (h : Usable t) :
    depth + [t].countP (·.isOperator "(") ≤ bracketsAfter depth t + [t].countP (·.isOperator ")") := by
  rcases h with kind | kind | ⟨kind, text⟩
  · simp [bracketsAfter, Token.isOperator, kind]
  · simp [bracketsAfter, Token.isOperator, kind]
  · simp only [List.mem_cons, List.not_mem_nil, or_false] at text
    rcases text with text | text | text | text | text | text | text
    all_goals simp [bracketsAfter, Token.isOperator, kind, text]
    -- a closing parenthesis that closes none
    omega

/-- As many brackets are open as parentheses were opened and not closed, or more. -/
theorem opened_le (depth : Nat) {ts : List Token} (h : ∀ t ∈ ts, Usable t) :
    depth + ts.countP (·.isOperator "(") ≤ ts.foldl bracketsAfter depth + ts.countP (·.isOperator ")") := by
  induction ts generalizing depth with
  | nil => exact Nat.le_refl _
  | cons t ts ih =>
    obtain ⟨ht, hts⟩ := List.forall_mem_cons.1 h
    have hfirst := opened_le_of_usable depth ht
    have hlater := ih (bracketsAfter depth t) hts
    rw [← List.singleton_append, List.countP_append, List.countP_append, List.foldl_append]
    show _ ≤ ts.foldl bracketsAfter (bracketsAfter depth t) + _
    omega

/-! ## Filler inside parentheses -/

/-- Whether the text `cs` ends with the token `t`, which stands there. -/
def Token.EndsText (t : Token) (cs : List Char) : Prop :=
  ∃ before, cs = before ++ t.text.toList ∧ t.toPosition = positionAfter before

section

variable {a b : String} {p : Program} {us vs : List Token} {t : Token}

/-- A token inside parentheses is not the last one. -/
theorem exists_token_of_inside (accepted : parseProgram (tokenize (a ++ b)) = .ok p)
    (split : tokenize (a ++ b) = us ++ t :: vs)
    (inside : (us ++ [t]).countP (·.isOperator ")") < (us ++ [t]).countP (·.isOperator "(")) :
    ∃ rest, tokensFrom .start (lexemes (a ++ b).toList) = us ++ t :: rest := by
  have hstatements := statements_of_accepted accepted
  rw [tokenize_of_accepted accepted] at split
  rcases List.eq_nil_or_concat vs with rfl | ⟨rest, e, rfl⟩
  · obtain ⟨hus, ht⟩ := List.append_inj' split rfl
    obtain rfl := List.singleton_inj.1 ht
    have hend : ∀ symbol, [endToken (Position.start.after (a ++ b).toList)].countP (·.isOperator symbol) = 0 :=
      fun _ => rfl
    have hopened := opened_le 0 (hus ▸ hstatements.usable)
    have hclosed := hstatements.foldl_bracketsAfter 0
    rw [hus] at hclosed
    rw [List.countP_append, List.countP_append, hend, hend] at inside
    omega
  · rw [List.concat_eq_append, ← List.cons_append, ← List.append_assoc] at split
    exact ⟨rest, (List.append_inj' split rfl).1⟩

theorem usable_of_inside (accepted : parseProgram (tokenize (a ++ b)) = .ok p)
    (split : tokenize (a ++ b) = us ++ t :: vs)
    (inside : (us ++ [t]).countP (·.isOperator ")") < (us ++ [t]).countP (·.isOperator "(")) :
    ∀ u ∈ us ++ [t], Usable u := by
  obtain ⟨rest, hrest⟩ := exists_token_of_inside accepted split inside
  intro u hu
  refine (statements_of_accepted accepted).usable u ?_
  rw [hrest, List.append_cons]
  exact List.mem_append_left _ hu

/-- The lexemes up to a token where a text ends. -/
theorem exists_lexemes_of_endsText {rest : List Token}
    (split : tokensFrom .start (lexemes (a ++ b).toList) = us ++ t :: rest) (ends : t.EndsText a.toList) :
    ∃ done l more, lexemes (a ++ b).toList = done ++ [l] ++ more ∧ l.kind? ≠ none ∧
      textOf (done ++ [l]) = a.toList ∧ tokensFrom .start (done ++ [l]) = us ++ [t] := by
  obtain ⟨done, l, more, hls, hdone, hl, -⟩ := Lexeme.exists_lexeme_of_tokensFrom .start split
  obtain ⟨hkind, hplace, htext⟩ := Lexeme.token?_eq_some l _ t hl
  obtain ⟨before, ha, hbefore⟩ := ends
  have hsource := (lexemes_of_append _ done (l :: more) hls).1
  rw [String.toList_append, ha, List.append_assoc] at hsource
  have hfront : before = textOf done :=
    eq_of_positionAfter_eq hsource (by rw [← hbefore, hplace, start_after])
  refine ⟨done, l, more, by rw [hls, List.append_cons], by rw [hkind]; exact Option.some_ne_none _, ?_, ?_⟩
  · rw [Lexeme.textOf_append, ← hfront, Lexeme.textOf_cons, Lexeme.textOf_nil, List.append_nil, ha, htext,
      String.toList_ofList]
  · rw [Lexeme.tokensFrom_append, hdone, tokensFrom, hl]
    rfl

/-- Filler after a token inside parentheses moves the tokens after it down, by as many lines as it has newlines. -/
theorem tokenize_filler (accepted : parseProgram (tokenize (a ++ b)) = .ok p)
    (split : tokenize (a ++ b) = us ++ t :: vs) (ends : t.EndsText a.toList)
    (inside : (us ++ [t]).countP (·.isOperator ")") < (us ++ [t]).countP (·.isOperator "(")) {g : String}
    (filler : Filler g.toList) : 0 < (us ++ [t]).foldl bracketsAfter 0 ∧
      ∃ ws, tokenize (a ++ g ++ b) = us ++ [t] ++ ws ∧
        List.Forall₂ (Token.Moved fun p q => q.line = p.line + g.toList.count '\n') vs ws := by
  obtain ⟨rest, hrest⟩ := exists_token_of_inside accepted split inside
  obtain ⟨done, l, more, hls, hl, ha, htokens⟩ := exists_lexemes_of_endsText hrest ends
  have hstring := shape_ne_string_of_accepted accepted l (by rw [hls]; simp)
  obtain ⟨hb, hmore⟩ := lexemes_of_append _ (done ++ [l]) more hls
  rw [String.toList_append, ha, List.append_cancel_left_eq] at hb
  have hlexemes := filler.lexemes_append hls hl hstring fun _ => hb
  rw [ha] at hlexemes
  -- both texts are scanned alike up to the token, and apart from their positions after it
  have hold : tokenize (a ++ b) = Scan.tokens {} (done ++ [l]) ++ (Scan.last {} (done ++ [l])).run more := by
    rw [tokenize_eq_run, hls, Scan.run_append_of_token _ hl]
  have hnew : tokenize (a ++ g ++ b) =
      Scan.tokens {} (done ++ [l]) ++ (Scan.last {} (done ++ [l])).run (lexemes (g.toList ++ b.toList)) := by
    rw [tokenize_eq_run, String.toList_append, String.toList_append, List.append_assoc, hlexemes,
      Scan.run_append_of_token _ hl]
  have hfront : Scan.tokens {} (done ++ [l]) = us ++ [t] := by
    rw [← htokens]
    refine (Scan.tokens_of_no_indent {} _ rfl fun u hu => not_indent_of_accepted accepted u ?_).1
    rw [hold]
    exact List.mem_append_left _ hu
  have hopen : 0 < (us ++ [t]).foldl bracketsAfter 0 := by
    have := opened_le 0 (usable_of_inside accepted split inside)
    omega
  rw [hfront] at hold hnew
  generalize hs : Scan.last {} (done ++ [l]) = s at hold hnew
  have hbrackets : s.brackets ≠ 0 := by
    rw [← hs, Scan.brackets_last, ← foldl_bracketsAfter_tokensFrom _ _ more hls .start, htokens]
    exact Nat.ne_of_gt hopen
  rw [s.run_filler hbrackets _ _ filler, hb, hmore] at hnew
  refine ⟨hopen, _, hnew, ?_⟩
  rw [split, List.append_cons, List.append_cancel_left_eq] at hold
  rw [hold]
  exact Scan.run_moved (Position.carries_line _) s _ (Position.line_after s.position g.toList) more

end

/-- If a text is accepted, then white space, newlines among it, and comments may be put after any of its tokens that
stands inside parentheses: the same statements are read. -/
theorem parseProgram_tokenize_filler (a g b : String) (p : Program) (us vs : List Token) (t : Token)
    (accepted : parseProgram (tokenize (a ++ b)) = .ok p) (split : tokenize (a ++ b) = us ++ t :: vs)
    (ends : t.EndsText a.toList)
    (inside : (us ++ [t]).countP (·.isOperator ")") < (us ++ [t]).countP (·.isOperator "("))
    (filler : Filler g.toList) : parseProgram (tokenize (a ++ g ++ b)) = .ok p := by
  obtain ⟨hopen, ws, hnew, hmoved⟩ := tokenize_filler accepted split ends inside filler
  have hstatements := statements_of_parseProgram _ p.body accepted
  have hfront : ∀ u ∈ us ++ [t], u.kind ≠ .endOfFile :=
    fun u hu => (usable_of_inside accepted split inside u hu).not_isEnd
  rw [split, List.append_cons, liveTokens_append _ _ hfront] at hstatements
  refine parseProgram_of_statements _ p.body ?_
  rw [hnew, liveTokens_append _ _ hfront]
  refine hstatements.keeps (Keeps.append ?_ ?_ fun hclosed => absurd hclosed (Nat.ne_of_gt hopen))
  · exact Grammar.keeps_of_moved (R := Eq) (fun p q p' q' hp hq => by rw [hp, hq])
      (List.forall₂_same.2 fun u _ => ⟨rfl, rfl, rfl⟩) 0
  · refine Grammar.keeps_of_moved (fun p q p' q' hp hq => ?_) (forall₂_liveTokens hmoved) _
    rw [hp, hq]
    exact (Grammar.strictMono_add _).cmp_map_eq _ _

/-- A comment, two newlines and a tab in front of the second operand. -/
theorem parseProgram_filler_of_comment :
    parseProgram (tokenize ("y = (1 +" ++ " # one\n\n\t" ++ "\n2)\nz = y")) =
      .ok ⟨[.assign "y" (.binary .add (.integer 1) (.integer 2)), .assign "z" (.var "y")]⟩ := by
  have line : '\n' ∉ " one".toList := by decide
  have filler : Filler " # one\n\n\t".toList :=
    .blank (by decide +kernel) (.comment line (.blank (by decide +kernel) (.blank (by decide +kernel) .nil)))
  exact parseProgram_tokenize_filler "y = (1 +" " # one\n\n\t" "\n2)\nz = y" _
    ((tokenize "y = (1 +\n2)\nz = y").take 4) ((tokenize "y = (1 +\n2)\nz = y").drop 5)
    ⟨⟨1, 7⟩, .operator, "+"⟩ (by decide +kernel) (by decide +kernel)
    ⟨"y = (1 ".toList, by decide +kernel, by decide +kernel⟩ (by decide +kernel) filler

end ExprLang
