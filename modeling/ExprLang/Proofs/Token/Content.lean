import ExprLang.Proofs.Lexeme
import ExprLang.Token.Scan

/-!
# The tokens that stand for text

Apart from the marks of blocks and the end mark, the tokens of a text are those of its lexemes, each at the position
where the lexeme starts.

* `Token.isContent`, `contentOf` : the tokens that stand for text;
* `Lexeme.tokensFrom` : the tokens of a list of lexemes;
* `contentOf_tokenize` : the content of the tokens of a text; `exists_tokenize_eq_append_endToken` : the one end mark;
* `filter_tokenize` : all tokens but the marks of blocks.
-/

namespace ExprLang

/-- Whether the token stands for text: it marks neither a block nor the end. -/
def Token.isContent (t : Token) : Bool := t.kind != .indent && t.kind != .dedent && t.kind != .endOfFile

def contentOf (ts : List Token) : List Token := ts.filter Token.isContent

namespace Lexeme

/-- The tokens of the lexemes, the first of which starts at `p`. -/
def tokensFrom (p : Position) : List Lexeme → List Token
  | [] => []
  | l :: ls => (l.token? p).toList ++ tokensFrom (p.after l.text) ls

theorem tokensFrom_append (p : Position) (ls ms : List Lexeme) :
    tokensFrom p (ls ++ ms) = tokensFrom p ls ++ tokensFrom (p.after (textOf ls)) ms := by
  induction ls generalizing p with
  | nil => rfl
  | cons l ls ih =>
    rw [List.cons_append, tokensFrom, tokensFrom, ih, textOf_cons, Position.after_append, List.append_assoc]

theorem kind?_isContent (l : Lexeme) (k : Token.Kind) (h : l.kind? = some k) :
    k ≠ .indent ∧ k ≠ .dedent ∧ k ≠ .endOfFile := by
  cases hs : l.shape with
  | gap | comment | newline => simp [kind?, hs] at h
  | word | number =>
    simp only [kind?, hs, Option.some.injEq] at h
    subst h
    split <;> decide
  | string | operators | opening | closing | single =>
    simp only [kind?, hs, Option.some.injEq] at h
    subst h
    decide

theorem exists_kind? {l : Lexeme} (gap : l.shape ≠ .gap) (newline : l.shape ≠ .newline)
    (comment : l.shape ≠ .comment) : ∃ k, l.kind? = some k := by
  unfold kind?
  cases hshape : l.shape <;> simp_all

/-- What makes no token opens and closes no bracket. -/
theorem brackets_of_silent {l : Lexeme} (h : l.kind? = none) (depth : Nat) : l.brackets depth = depth := by
  unfold brackets
  unfold kind? at h
  cases hshape : l.shape <;> simp_all

theorem token?_of_silent {l : Lexeme} (h : l.kind? = none) (p : Position) : l.token? p = none := by
  rw [token?, h]
  rfl

theorem token?_eq_some (l : Lexeme) (p : Position) (t : Token) (h : l.token? p = some t) :
    l.kind? = some t.kind ∧ t.toPosition = p ∧ t.text = String.ofList l.text := by
  obtain ⟨k, hk, rfl⟩ := Option.map_eq_some_iff.1 h
  exact ⟨hk, rfl, rfl⟩

theorem isContent_of_token? (l : Lexeme) (p : Position) (t : Token) (h : l.token? p = some t) :
    t.isContent = true := by
  have hk := kind?_isContent l t.kind (token?_eq_some l p t h).1
  simp [Token.isContent, hk]

theorem isContent_of_mem_tokensFrom (p : Position) (ls : List Lexeme) (t : Token) (h : t ∈ tokensFrom p ls) :
    t.isContent = true := by
  induction ls generalizing p with
  | nil => cases h
  | cons l ls ih =>
    rcases List.mem_append.1 h with h | h
    · exact isContent_of_token? l p t (Option.mem_toList.1 h)
    · exact ih _ h

theorem exists_mem_tokensFrom (p : Position) {ls : List Lexeme} {l : Lexeme} {k : Token.Kind} (hl : l ∈ ls)
    (hk : l.kind? = some k) : ∃ t ∈ tokensFrom p ls, t.kind = k ∧ t.text = String.ofList l.text := by
  obtain ⟨before, after, rfl⟩ := List.append_of_mem hl
  rw [tokensFrom_append, tokensFrom, token?, hk]
  exact ⟨_, List.mem_append_right _ List.mem_cons_self, rfl, rfl⟩

/-- A token of some lexemes is the token of one of them. -/
theorem exists_lexeme_of_tokensFrom (p : Position) {ls : List Lexeme} {us vs : List Token} {t : Token}
    (h : tokensFrom p ls = us ++ t :: vs) : ∃ done l rest, ls = done ++ l :: rest ∧ tokensFrom p done = us ∧
      l.token? (p.after (textOf done)) = some t ∧ tokensFrom (p.after (textOf (done ++ [l]))) rest = vs := by
  induction ls generalizing p us with
  | nil => exact absurd h.symm (List.append_ne_nil_of_right_ne_nil _ (List.cons_ne_nil _ _))
  | cons l ls ih =>
    have first : ∀ us', tokensFrom (p.after l.text) ls = us' ++ t :: vs → us = (l.token? p).toList ++ us' →
        ∃ done k rest, l :: ls = done ++ k :: rest ∧ tokensFrom p done = us ∧
          k.token? (p.after (textOf done)) = some t ∧ tokensFrom (p.after (textOf (done ++ [k]))) rest = vs := by
      rintro us' hus' rfl
      obtain ⟨done, k, rest, rfl, hdone, hk, hrest⟩ := ih (p.after l.text) hus'
      refine ⟨l :: done, k, rest, rfl, by rw [tokensFrom, hdone], ?_, ?_⟩
      · rw [textOf_cons, Position.after_append, hk]
      · rw [List.cons_append, textOf_cons, Position.after_append, hrest]
    rw [tokensFrom] at h
    cases hl : l.token? p with
    | none =>
      rw [hl, Option.toList_none, List.nil_append] at h
      exact first us h (by rw [hl]; rfl)
    | some u =>
      rw [hl, Option.toList_some, List.singleton_append] at h
      cases us with
      | nil =>
        obtain ⟨rfl, hvs⟩ := List.cons.inj h
        exact ⟨[], l, ls, rfl, rfl, hl, by rw [List.nil_append, textOf_cons, textOf_nil, List.append_nil, hvs]⟩
      | cons v us =>
        obtain ⟨rfl, hus⟩ := List.cons.inj h
        exact first us hus (by rw [hl]; rfl)

theorem le_line_of_mem_tokensFrom (p : Position) (ls : List Lexeme) (t : Token) (h : t ∈ tokensFrom p ls) :
    p.line ≤ t.line := by
  induction ls generalizing p with
  | nil => cases h
  | cons l ls ih =>
    rcases List.mem_append.1 h with h | h
    · exact Nat.le_of_eq (congrArg Position.line (token?_eq_some l p t (Option.mem_toList.1 h)).2.1.symm)
    · have := ih _ h
      rw [Position.line_after] at this
      omega

/-- A token ends before the text of the lexemes does. -/
theorem endLine_le_of_mem_tokensFrom (p : Position) (ls : List Lexeme) (t : Token) (h : t ∈ tokensFrom p ls) :
    t.line + t.text.toList.count '\n' ≤ (p.after (textOf ls)).line := by
  induction ls generalizing p with
  | nil => cases h
  | cons l ls ih =>
    rw [textOf_cons, Position.after_append]
    rcases List.mem_append.1 h with h | h
    · obtain ⟨-, hp, ht⟩ := token?_eq_some l p t (Option.mem_toList.1 h)
      rw [hp, ht, String.toList_ofList, Position.line_after, Position.line_after]
      omega
    · exact ih _ h

end Lexeme

open Lexeme (tokensFrom textOf)

theorem contentOf_append (ts us : List Token) : contentOf (ts ++ us) = contentOf ts ++ contentOf us :=
  List.filter_append ..

namespace Scan

theorem contentOf_map_mark (p : Position) (kinds : List Token.Kind) (h : ∀ k ∈ kinds, k = .indent ∨ k = .dedent) :
    contentOf (kinds.map (mark p)) = [] := by
  rw [contentOf, List.filter_eq_nil_iff]
  intro t ht
  obtain ⟨k, hk, rfl⟩ := List.mem_map.1 ht
  rcases h k hk with rfl | rfl <;> simp [mark, Token.isContent]

theorem mem_marks (l : Layout) (w : Nat) : ∀ k ∈ l.marks w, k = .indent ∨ k = .dedent := by
  intro k hk
  unfold Layout.marks at hk
  split at hk
  · exact Or.inl (List.mem_singleton.1 hk)
  · obtain ⟨_, -, rfl⟩ := List.mem_map.1 hk
    exact Or.inr rfl

theorem mem_closing (l : Layout) : ∀ k ∈ l.closing, k = .indent ∨ k = .dedent := by
  intro k hk
  obtain ⟨_, -, rfl⟩ := List.mem_map.1 hk
  exact Or.inr rfl

theorem contentOf_marks (s : Scan) (ls : List Lexeme) : contentOf (s.marks ls) = [] := by
  unfold marks
  split
  · exact contentOf_map_mark _ _ (mem_marks _ _)
  · rfl

theorem contentOf_tokens (s : Scan) (ls : List Lexeme) : contentOf (s.tokens ls) = tokensFrom s.position ls := by
  induction ls generalizing s with
  | nil => rfl
  | cons l ls ih =>
    have ht : contentOf (l.token? s.position).toList = (l.token? s.position).toList :=
      List.filter_eq_self.2 fun t h => Lexeme.isContent_of_token? l s.position t (Option.mem_toList.1 h)
    rw [tokens, emit, contentOf_append, contentOf_append, contentOf_marks, ht, ih]
    rfl

theorem kind_of_mem_marks (s : Scan) (ls : List Lexeme) (t : Token) (h : t ∈ s.marks ls) :
    t.kind = .indent ∨ t.kind = .dedent := by
  unfold marks at h
  split at h
  · obtain ⟨k, hk, rfl⟩ := List.mem_map.1 h
    exact mem_marks _ _ k hk
  · cases h

theorem kind_ne_endOfFile_of_mem_tokens (s : Scan) (ls : List Lexeme) (t : Token) (h : t ∈ s.tokens ls) :
    t.kind ≠ .endOfFile := by
  induction ls generalizing s with
  | nil => cases h
  | cons l ls ih =>
    rw [tokens, emit, List.append_assoc] at h
    rcases List.mem_append.1 h with h | h
    · rcases kind_of_mem_marks s _ t h with h | h <;> rw [h] <;> decide
    · rcases List.mem_append.1 h with h | h
      · have ht := Lexeme.token?_eq_some l s.position t (Option.mem_toList.1 h)
        exact (Lexeme.kind?_isContent l t.kind ht.1).2.2
      · exact ih _ h

theorem position_last (s : Scan) (ls : List Lexeme) : (s.last ls).position = s.position.after (textOf ls) := by
  induction ls generalizing s with
  | nil => rfl
  | cons l ls ih =>
    rw [last, ih, Lexeme.textOf_cons, Position.after_append]
    rfl

theorem brackets_last (s : Scan) (ls : List Lexeme) :
    (s.last ls).brackets = ls.foldl (fun depth l => l.brackets depth) s.brackets := by
  induction ls generalizing s with
  | nil => rfl
  | cons l ls ih => exact ih (s.step l ls)

theorem position_last_lexemes (source : List Char) :
    (last {} (lexemes source)).position = Position.start.after source := by
  rw [position_last, textOf, flatMap_text_lexemes]

end Scan

def endToken (p : Position) : Token := { toPosition := p, kind := .endOfFile, text := "EOF" }

theorem contentOf_tokenize (source : String) :
    contentOf (tokenize source) = tokensFrom .start (lexemes source.toList) := by
  have hc := Scan.contentOf_map_mark (Scan.last {} (lexemes source.toList)).position _
    (Scan.mem_closing (Scan.last {} (lexemes source.toList)).layout)
  rw [tokenize, contentOf_append, Scan.contentOf_tokens, Scan.finish, contentOf_append, hc]
  exact List.append_nil _

theorem tokenize_eq (source : String) :
    tokenize source = Scan.tokens {} (lexemes source.toList) ++
      (Scan.last {} (lexemes source.toList)).layout.closing.map
        (Scan.mark (Position.start.after source.toList)) ++ [endToken (Position.start.after source.toList)] := by
  rw [tokenize, Scan.finish, Scan.position_last_lexemes, List.append_assoc]
  rfl

/-- One end mark is the last token, and stands at the end of the text. -/
theorem exists_tokenize_eq_append_endToken (source : String) :
    ∃ ts, tokenize source = ts ++ [endToken (Position.start.after source.toList)] ∧
      ∀ t ∈ ts, t.kind ≠ .endOfFile := by
  refine ⟨_, tokenize_eq source, fun t ht => ?_⟩
  rcases List.mem_append.1 ht with ht | ht
  · exact Scan.kind_ne_endOfFile_of_mem_tokens _ _ t ht
  · obtain ⟨k, hk, rfl⟩ := List.mem_map.1 ht
    rcases Scan.mem_closing _ k hk with rfl | rfl <;> simp [Scan.mark]

/-- Apart from the marks of blocks, the tokens of a text are those that stand for text, and the end mark. -/
theorem filter_tokenize (source : String) :
    (tokenize source).filter (fun t => t.kind != .indent && t.kind != .dedent) =
      contentOf (tokenize source) ++ [endToken (Position.start.after source.toList)] := by
  obtain ⟨ts, hts, hkind⟩ := exists_tokenize_eq_append_endToken source
  have hfront : ts.filter (fun t => t.kind != .indent && t.kind != .dedent) = contentOf ts := by
    refine List.filter_congr fun t ht => ?_
    simp [Token.isContent, hkind t ht]
  have hend : contentOf [endToken (Position.start.after source.toList)] = [] := rfl
  rw [hts, List.filter_append, hfront, contentOf_append, hend, List.append_nil]
  rfl

end ExprLang
