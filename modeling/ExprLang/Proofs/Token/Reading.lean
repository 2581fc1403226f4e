import ExprLang.Proofs.Token.Trivia

/-!
# There is one way to read a text

A text is read as tokens of a few classes with white space and comments between them. Each token is as long as its
class allows, and so only one list of tokens is a reading of the text.

* `Whole` : the classes of tokens, and where a token of each ends;
* `Reading` : a list of tokens laid over a text, each as long as it can be;
* `exists_fits_of_whole`, `whole_of_fits` : the whole tokens are the lexemes that make tokens;
* `reading_tokensFrom`, `Reading.eq_tokensFrom` : there is a reading, and only one;
* `reading_iff` : the tokens of a text, without the marks of blocks, are its one reading.
-/

namespace ExprLang

open Text (isBlank)
open Lexeme (isWordStart isWordPart isOperatorPart tokensFrom)

/-- `Whole kind text rest` : the characters `text` are a token of the kind `kind` that cannot be longer, if the
characters `rest` follow. -/
inductive Whole : Token.Kind → List Char → List Char → Prop
  | word {c cs rest} (start : isWordStart c = true) (run : ∀ d ∈ cs, isWordPart d = true)
      (full : ∀ d ∈ rest.head?, isWordPart d = false) :
      Whole (if isReserved (String.ofList (c :: cs)) then .keyword else .identifier) (c :: cs) rest
  | integer {c cs rest} (run : ∀ d ∈ c :: cs, d.isDigit = true) (full : ∀ d ∈ rest.head?, d.isDigit = false)
      (point : ∀ d, rest.take 2 = ['.', d] → d.isDigit = false) : Whole .integerLiteral (c :: cs) rest
  | float {c cs d ds rest} (run : ∀ e ∈ c :: cs, e.isDigit = true) (fraction : ∀ e ∈ d :: ds, e.isDigit = true)
      (full : ∀ e ∈ rest.head?, e.isDigit = false) : Whole .floatLiteral (c :: cs ++ '.' :: d :: ds) rest
  | quoted {body rest} (inside : '"' ∉ body) : Whole .stringLiteral ('"' :: (body ++ ['"'])) rest
  | unquoted {body} (inside : '"' ∉ body) : Whole .stringLiteral ('"' :: body) []
  | operators {c cs rest} (run : ∀ d ∈ c :: cs, isOperatorPart d = true)
      (full : ∀ d ∈ rest.head?, isOperatorPart d = false) : Whole .operator (c :: cs) rest
  | single {c rest} (word : isWordStart c = false) (digit : c.isDigit = false) (quote : c ≠ '"')
      (operator : isOperatorPart c = false) (blank : isBlank c = false) (hash : c ≠ '#') : Whole .operator [c] rest

/-- `Reading before rest ts` : after the text `before` the text `rest` is read as the tokens `ts`. Each is whole, with
trivia before it, and stands where its text does; the last of them marks the end. -/
inductive Reading : List Char → List Char → List Token → Prop
  | done {before rest} (gap : Trivia rest []) : Reading before rest [endToken (positionAfter (before ++ rest))]
  | token {before gap rest t ts} (trivia : Trivia (gap ++ (t.text.toList ++ rest)) (t.text.toList ++ rest))
      (place : t.toPosition = positionAfter (before ++ gap)) (whole : Whole t.kind t.text.toList rest)
      (further : Reading (before ++ gap ++ t.text.toList) rest ts) :
      Reading before (gap ++ (t.text.toList ++ rest)) (t :: ts)

/-! ## Whole tokens are lexemes -/

section

variable {cs : List Char}

theorem contains_point_of_digits (run : ∀ d ∈ cs, d.isDigit = true) : cs.contains '.' = false := by
  rw [Bool.eq_false_iff, ne_eq, List.contains_iff_mem]
  exact fun hmem => absurd (run _ hmem) (by decide)

theorem contains_point (cs ds : List Char) : (cs ++ '.' :: ds).contains '.' = true := by
  rw [List.contains_iff_mem]
  exact List.mem_append_right _ List.mem_cons_self

end

/-- A whole token is the lexeme that comes next. -/
theorem exists_fits_of_whole {kind : Token.Kind} {text rest : List Char} (h : Whole kind text rest) :
    ∃ l : Lexeme, l.text = text ∧ l.Fits rest ∧ l.kind? = some kind := by
  cases h with
  | @word c cs _ start run full =>
    refine ⟨⟨.word, c :: cs⟩, rfl, ⟨c, cs, rfl, (Lexeme.ofChar_of_isWordStart c start).symm, ?_⟩, rfl⟩
    exact Lexeme.cut_of_run run full
  | @integer c cs _ run full point =>
    refine ⟨⟨.number, c :: cs⟩, rfl, Lexeme.fits_of_digits (List.cons_ne_nil c cs) run full point, ?_⟩
    rw [Lexeme.kind?, contains_point_of_digits run]
    rfl
  | @float c cs d ds _ run fraction full =>
    rw [List.forall_mem_cons] at run fraction
    refine ⟨⟨.number, c :: cs ++ '.' :: d :: ds⟩, rfl, ⟨c, _, rfl, (Lexeme.ofChar_of_isDigit c run.1).symm, ?_⟩, ?_⟩
    · exact Lexeme.splitNumber_of_point run.2 fraction.1 fraction.2 full
    · rw [Lexeme.kind?, contains_point]
      rfl
  | @quoted body _ inside =>
    refine ⟨⟨.string, '"' :: (body ++ ['"'])⟩, rfl, ⟨'"', _, rfl, Lexeme.ofChar_of_quote.symm, ?_⟩, rfl⟩
    have hsplit := Lexeme.splitQuote_of_body body rest inside
    rwa [List.append_cons] at hsplit
  | @unquoted body inside =>
    refine ⟨⟨.string, '"' :: body⟩, rfl, ⟨'"', _, rfl, Lexeme.ofChar_of_quote.symm, ?_⟩, rfl⟩
    rw [List.append_nil]
    exact Lexeme.splitQuote_of_notMem inside
  | @operators c cs _ run full =>
    rw [List.forall_mem_cons] at run
    refine ⟨⟨.operators, c :: cs⟩, rfl, ⟨c, cs, rfl, (Lexeme.ofChar_of_isOperatorPart c run.1).symm, ?_⟩, rfl⟩
    exact Lexeme.cut_of_run run.2 full
  | @single c _ word digit quote operator blank hash =>
    refine ⟨⟨.ofChar c, [c]⟩, rfl, ⟨c, [], rfl, rfl, ?_⟩, ?_⟩ <;>
      rcases (Lexeme.ofChar_alone_iff c).2 ⟨word, digit, quote, operator, blank, hash⟩ with h | h | h <;>
      simp only [h] <;> rfl

/-- A lexeme that makes a token is whole. -/
theorem whole_of_fits {l : Lexeme} {rest : List Char} {kind : Token.Kind} (fits : l.Fits rest)
    (h : l.kind? = some kind) : Whole kind l.text rest := by
  obtain ⟨c, cs, ht, hs, he⟩ := fits
  have hstarts := Lexeme.starts_ofChar c
  have halone := (Lexeme.ofChar_alone_iff c).1
  rw [← hs] at hstarts halone
  rw [Lexeme.kind?, ht] at h
  rw [ht]
  cases hshape : l.shape with
  | gap | comment | newline =>
    rw [hshape] at h
    cases h
  | word =>
    rw [hshape] at h hstarts he
    obtain ⟨run, full⟩ := Lexeme.takeWhile_and_dropWhile_append_iff.1 (Prod.mk.inj he)
    cases h
    exact .word hstarts run full
  | operators =>
    rw [hshape] at h hstarts he
    obtain ⟨run, full⟩ := Lexeme.takeWhile_and_dropWhile_append_iff.1 (Prod.mk.inj he)
    cases h
    exact .operators (List.forall_mem_cons.2 ⟨hstarts, run⟩) full
  | number =>
    rw [hshape] at h hstarts he
    obtain ⟨full, ⟨run, point⟩ | ⟨ds, d, es, rfl, hds, hd, hes⟩⟩ := Lexeme.digits_of_splitNumber he
    · have run' : ∀ d ∈ c :: cs, d.isDigit = true := List.forall_mem_cons.2 ⟨hstarts, run⟩
      rw [contains_point_of_digits run'] at h
      cases h
      exact .integer run' full point
    · rw [← List.cons_append, contains_point] at h
      cases h
      exact .float (List.forall_mem_cons.2 ⟨hstarts, hds⟩) (List.forall_mem_cons.2 ⟨hd, hes⟩) full
  | string =>
    rw [hshape] at h hstarts he
    obtain rfl : c = '"' := eq_of_beq hstarts
    cases h
    rcases Lexeme.body_of_splitQuote he with ⟨inside, rfl⟩ | ⟨body, inside, rfl⟩
    · exact .unquoted inside
    · exact .quoted inside
  | opening | closing | single =>
    rw [hshape] at h he halone
    obtain ⟨rfl, -⟩ := Prod.mk.inj he
    cases h
    obtain ⟨word, digit, quote, operator, blank, hash⟩ := halone (by simp)
    exact .single word digit quote operator blank hash

/-! ## Readings -/

/-- Trivia in front of the text changes nothing. -/
theorem Reading.prepend {before cs rest : List Char} {ts : List Token} (h : Reading (before ++ cs) rest ts)
    (trivia : Trivia (cs ++ rest) rest) : Reading before (cs ++ rest) ts := by
  cases h with
  | done gap =>
    rw [List.append_assoc]
    exact .done (trivia.trans gap)
  | @token _ gap rest t ts h place whole further =>
    have hcs : cs ++ (gap ++ (t.text.toList ++ rest)) = cs ++ gap ++ (t.text.toList ++ rest) :=
      (List.append_assoc ..).symm
    rw [hcs] at trivia ⊢
    rw [List.append_assoc] at place
    rw [List.append_assoc before cs gap] at further
    exact .token (trivia.trans h) place whole further

/-- The tokens of the lexemes are a reading. -/
theorem reading_tokensFrom (before rest : List Char) :
    Reading before rest
      (tokensFrom (positionAfter before) (lexemes rest) ++ [endToken (positionAfter (before ++ rest))]) := by
  generalize hls : lexemes rest = ls
  induction ls generalizing before rest with
  | nil =>
    have hrest : rest = [] := by rw [← flatMap_text_lexemes rest, hls, List.flatMap_nil]
    exact .done (hrest ▸ .refl)
  | cons l ls ih =>
    obtain ⟨rest, rfl, fits, rfl⟩ := fits_of_lexemes rest l ls hls
    have further := ih (before ++ l.text) rest rfl
    rw [List.append_assoc] at further
    rw [tokensFrom, after_positionAfter, List.append_assoc]
    cases hk : l.kind? with
    | none =>
      rw [Lexeme.token?, hk]
      exact further.prepend (trivia_of_fits l rest fits hk)
    | some k =>
      rw [Lexeme.token?, hk]
      let t : Token := { toPosition := positionAfter before, kind := k, text := String.ofList l.text }
      have htext : t.text.toList = l.text := String.toList_ofList
      have hplace : t.toPosition = positionAfter (before ++ []) := by rw [List.append_nil]
      have hwhole : Whole t.kind t.text.toList rest := htext ▸ whole_of_fits fits hk
      have hreading : Reading before ([] ++ (t.text.toList ++ rest)) _ :=
        .token .refl hplace hwhole (by rwa [List.append_nil, htext])
      rwa [List.nil_append, htext] at hreading

/-- No other list of tokens is a reading. -/
theorem Reading.eq_tokensFrom {before rest : List Char} {ts : List Token} (h : Reading before rest ts) :
    ts = tokensFrom (positionAfter before) (lexemes rest) ++ [endToken (positionAfter (before ++ rest))] := by
  induction h with
  | @done before rest trivia =>
    obtain ⟨gap, -, htokens⟩ := tokensFrom_of_trivia trivia (positionAfter before)
    rw [htokens, lexemes_nil]
    rfl
  | @token before gap rest t ts trivia place whole _ ih =>
    obtain ⟨gap', hgap, htokens⟩ := tokensFrom_of_trivia trivia (positionAfter before)
    obtain rfl : gap = gap' := List.append_cancel_right hgap
    obtain ⟨l, hl, fits, hk⟩ := exists_fits_of_whole whole
    have htoken : l.token? (positionAfter (before ++ gap)) = some t := by
      rw [Lexeme.token?, hk, hl, String.ofList_toList, ← place]
      rfl
    rw [htokens, ← hl, Lexeme.lexemes_of_fits l rest fits, tokensFrom, after_positionAfter, htoken, after_positionAfter,
      hl, ih, List.append_assoc, List.append_assoc, List.append_assoc]
    rfl

/-- The tokens of a text, without the marks of blocks, are a reading of it, and there is no other: each is as long as
its class allows, and stands where its text does, with nothing but white space and comments between them. -/
theorem reading_iff (source : String) (ts : List Token) :
    Reading [] source.toList ts ↔ ts = (tokenize source).filter fun t => t.kind != .indent && t.kind != .dedent := by
  have htokens : (tokenize source).filter (fun t => t.kind != .indent && t.kind != .dedent) =
      tokensFrom (positionAfter []) (lexemes source.toList) ++ [endToken (positionAfter ([] ++ source.toList))] := by
    obtain ⟨us, hus, hcontent⟩ := exists_tokenize_eq_append_endToken source
    have hfilter : us.filter (fun t => t.kind != .indent && t.kind != .dedent) = contentOf us := by
      refine List.filter_congr fun t ht => ?_
      simp [Token.isContent, hcontent t ht]
    have hend : contentOf [endToken (Position.start.after source.toList)] = [] := rfl
    have hposition : positionAfter [] = .start := rfl
    rw [List.nil_append, ← start_after source.toList, hposition, ← contentOf_tokenize, hus, contentOf_append, hend,
      List.append_nil, ← hfilter, List.filter_append]
    rfl
  rw [htokens]
  constructor
  · exact Reading.eq_tokensFrom
  · rintro rfl
    exact reading_tokensFrom [] source.toList

end ExprLang
