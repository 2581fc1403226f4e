import ExprLang.Proofs.Accepted
import ExprLang.Proofs.Node.Leaves
import ExprLang.Proofs.Node.Printing
import ExprLang.Proofs.Token.Reading

/-!
# The trees of a text

The trees that a parser makes of a text hold the names and the integers of the text, all of them and in order. No tree
has an assignment but at its root.

* `textsOf` : the texts of the tokens of one kind;
* `Grammar.Derives.leaves_eq`, `Grammar.Statements.leaves_eq` : the leaves of a tree are the tokens of two kinds;
* `Grammar.Derives.isExpression` : expressions have no assignments;
* `isName_of_identifier`, `digits_of_integerLiteral` : what the text of such a token is;
* `Node.IsSound`, `StandsFor` : what holds of the trees of a text;
* `standsFor_of_accepted` : it holds of whatever the two parsers accept.
-/

namespace ExprLang

open Grammar (Level Derives Statement Statements)

def textsOf (kind : Token.Kind) (ts : List Token) : List String := (ts.filter (·.kind == kind)).map Token.text

@[simp] theorem textsOf_nil (kind : Token.Kind) : textsOf kind [] = [] := rfl

@[simp] theorem textsOf_append (kind : Token.Kind) (ts us : List Token) :
    textsOf kind (ts ++ us) = textsOf kind ts ++ textsOf kind us := by
  simp [textsOf]

theorem textsOf_cons (kind : Token.Kind) (t : Token) (ts : List Token) :
    textsOf kind (t :: ts) = if t.kind = kind then t.text :: textsOf kind ts else textsOf kind ts := by
  by_cases h : t.kind = kind <;> simp [textsOf, h]

theorem mem_textsOf_iff {kind : Token.Kind} {ts : List Token} {text : String} :
    text ∈ textsOf kind ts ↔ ∃ t ∈ ts, t.kind = kind ∧ t.text = text := by
  simp [textsOf, and_assoc]

/-! ## The leaves of a tree are tokens -/

namespace Grammar

variable {level : Level} {depth : Nat} {ts : List Token} {n : Node} {body : List Node}

/-- No name and no integer of an expression is lost or added, and none changes its place. -/
theorem Derives.leaves_eq (d : Derives level depth ts n) : n.names = textsOf .identifier ts ∧
    n.integers.map some = (textsOf .integerLiteral ts).map Numeral.int64? := by
  induction d with
  | integer kind value => simp [Node.names, Node.integers, textsOf_cons, kind, value]
  | name kind => simp [Node.names, Node.integers, textsOf_cons, kind]
  | group _ opening _ closing ih =>
    have ho := ((Token.isOperator_iff _ _).1 opening).1
    have hc := ((Token.isOperator_iff _ _).1 closing).1
    simp [textsOf_cons, ho, hc, ih]
  | product _ kind _ _ _ ihl ihr | sum _ kind _ _ _ ihl ihr =>
    simp [Node.names, Node.integers, textsOf_cons, kind, ihl, ihr]
  | factor _ ih | term _ ih => exact ih

theorem Derives.isExpression (d : Derives level depth ts n) : n.isExpression = true := by
  induction d with
  | integer | name => rfl
  | product _ _ _ _ _ ihl ihr | sum _ _ _ _ _ ihl ihr => rw [Node.isExpression, ihl, ihr, Bool.and_true]
  | group _ _ _ _ ih | factor _ ih | term _ ih => exact ih

theorem Statement.leaves_eq (s : Statement ts n) : n.names = textsOf .identifier ts ∧
    n.integers.map some = (textsOf .integerLiteral ts).map Numeral.int64? := by
  cases s with
  | expression value => exact value.leaves_eq
  | assignment kind equals _ value =>
    have he := ((Token.isOperator_iff _ _).1 equals).1
    simp [Node.names, Node.integers, textsOf_cons, kind, he, value.leaves_eq]

theorem Statement.isExpression_or_assign (s : Statement ts n) :
    n.isExpression = true ∨ ∃ x v, n = .assign x v ∧ v.isExpression = true := by
  cases s with
  | expression value => exact Or.inl value.isExpression
  | assignment _ _ _ value => exact Or.inr ⟨_, _, rfl, value.isExpression⟩

theorem Statements.leaves_eq (h : Statements ts body) : body.flatMap Node.names = textsOf .identifier ts ∧
    (body.flatMap Node.integers).map some = (textsOf .integerLiteral ts).map Numeral.int64? := by
  obtain ⟨parts, rfl, statements, -⟩ := h
  induction statements with
  | nil => simp
  | cons statement _ ih => simp [statement.leaves_eq, ih]

theorem Statements.isExpression_or_assign (h : Statements ts body) :
    ∀ n ∈ body, n.isExpression = true ∨ ∃ x v, n = .assign x v ∧ v.isExpression = true := by
  obtain ⟨parts, -, statements, -⟩ := h
  induction statements with
  | nil => simp
  | cons statement _ ih => exact List.forall_mem_cons.2 ⟨statement.isExpression_or_assign, ih⟩

end Grammar

/-! ## The tokens of a text -/

/-- Every token that is read is whole. -/
theorem Reading.whole {before rest : List Char} {ts : List Token} (h : Reading before rest ts) :
    ∀ t ∈ ts, t.isContent = true → ∃ after, Whole t.kind t.text.toList after := by
  induction h with
  | done =>
    intro t ht hcontent
    rw [List.mem_singleton.1 ht] at hcontent
    cases hcontent
  | token _ _ whole _ ih => exact List.forall_mem_cons.2 ⟨fun _ => ⟨_, whole⟩, ih⟩

theorem exists_whole_of_mem_tokenize (source : String) (t : Token) (ht : t ∈ tokenize source)
    (hcontent : t.isContent = true) : ∃ after, Whole t.kind t.text.toList after := by
  have hmem : t ∈ contentOf (tokenize source) := List.mem_filter.2 ⟨ht, hcontent⟩
  rw [contentOf_tokenize] at hmem
  exact (reading_tokensFrom [] source.toList).whole t (List.mem_append_left _ hmem) hcontent

theorem isName_of_identifier (source : String) (t : Token) (ht : t ∈ tokenize source) (kind : t.kind = .identifier) :
    isName t.text = true := by
  obtain ⟨after, whole⟩ := exists_whole_of_mem_tokenize source t ht (by rw [Token.isContent, kind]; rfl)
  rw [kind] at whole
  generalize hk : Token.Kind.identifier = k, htext : t.text.toList = text at whole
  cases whole with
  | integer | float | quoted | unquoted | operators | single => cases hk
  | @word c cs _ start run _ =>
    rw [← htext, String.ofList_toList] at hk
    split at hk
    · cases hk
    · next hreserved => simpa [isName, htext, start, hreserved] using run

theorem digits_of_integerLiteral (source : String) (t : Token) (ht : t ∈ tokenize source)
    (kind : t.kind = .integerLiteral) : t.text.toList ≠ [] ∧ ∀ c ∈ t.text.toList, c.isDigit = true := by
  obtain ⟨after, whole⟩ := exists_whole_of_mem_tokenize source t ht (by rw [Token.isContent, kind]; rfl)
  rw [kind] at whole
  generalize hk : Token.Kind.integerLiteral = k, htext : t.text.toList = text at whole
  cases whole with
  | float | quoted | unquoted | operators | single => cases hk
  | word => split at hk <;> cases hk
  | integer run => exact ⟨List.cons_ne_nil _ _, run⟩

theorem textsOf_liveTokens_tokenize (source : String) {kind : Token.Kind} (h : kind ≠ .endOfFile) :
    textsOf kind (liveTokens (tokenize source)) = textsOf kind (tokenize source) := by
  obtain ⟨ts, htokens, hts⟩ := exists_tokenize_eq_append_endToken source
  have hend : textsOf kind [endToken (Position.start.after source.toList)] = [] := by
    rw [textsOf_cons, endToken, if_neg h.symm, textsOf_nil]
  rw [htokens, liveTokens_append ts _ hts, textsOf_append, textsOf_append, hend]
  rfl

/-! ## The trees of a text -/

/-- Whether the tree is one of names, integers that are not below zero, and operations, or the assignment of one. -/
structure Node.IsSound (n : Node) : Prop where
  integers : ∀ i ∈ n.integers, 0 ≤ i.toInt ∧ i.toInt ≤ 9223372036854775807
  names : ∀ x ∈ n.names, isName x = true
  assignments : n.isExpression = true ∨ ∃ x v, n = .assign x v ∧ v.isExpression = true

/-- What holds of the trees that a parser makes of a text: each is sound, and together they have the names of the text
and the values of its integers, from left to right. -/
structure StandsFor (source : String) (body : List Node) : Prop where
  sound : ∀ n ∈ body, n.IsSound
  names : body.flatMap Node.names = textsOf .identifier (tokenize source)
  integers : (body.flatMap Node.integers).map Int64.toInt =
    (textsOf .integerLiteral (tokenize source)).map fun text => (Nat.ofDigitChars 10 text.toList 0 : Int)

/-- The values of some runs of digits that are read as integers of 64 bits. -/
theorem map_toInt_eq {values : List Int64} {texts : List String}
    (digits : ∀ text ∈ texts, ∀ c ∈ text.toList, c.isDigit = true)
    (h : values.map some = texts.map Numeral.int64?) :
    values.map Int64.toInt = texts.map fun text => (Nat.ofDigitChars 10 text.toList 0 : Int) := by
  induction texts generalizing values with
  | nil => simpa using h
  | cons text texts ih =>
    rw [List.forall_mem_cons] at digits
    cases values with
    | nil => simp at h
    | cons i values =>
      rw [List.map_cons, List.map_cons, List.cons.injEq] at h
      rw [List.map_cons, List.map_cons, ih digits.2 h.2, Numeral.toInt_of_int64?_eq_some digits.1 h.1.symm]

theorem standsFor_of_statements {source : String} {body : List Node}
    (h : Statements (liveTokens (tokenize source)) body) : StandsFor source body := by
  obtain ⟨hnames, hintegers⟩ := h.leaves_eq
  rw [textsOf_liveTokens_tokenize source (by decide)] at hnames hintegers
  have hvalues := map_toInt_eq (fun text htext => by
    obtain ⟨t, ht, kind, rfl⟩ := mem_textsOf_iff.1 htext
    exact (digits_of_integerLiteral source t ht kind).2) hintegers
  refine ⟨fun n hn => ⟨fun i hi => ⟨?_, ?_⟩, fun x hx => ?_, h.isExpression_or_assign n hn⟩, hnames, hvalues⟩
  · have hi : i.toInt ∈ (body.flatMap Node.integers).map Int64.toInt :=
      List.mem_map_of_mem (List.mem_flatMap.2 ⟨n, hn, hi⟩)
    rw [hvalues] at hi
    obtain ⟨text, -, htext⟩ := List.mem_map.1 hi
    omega
  · exact i.toInt_le
  · have hx : x ∈ body.flatMap Node.names := List.mem_flatMap.2 ⟨n, hn, hx⟩
    rw [hnames] at hx
    obtain ⟨t, ht, kind, rfl⟩ := mem_textsOf_iff.1 hx
    exact isName_of_identifier source t ht kind

/-- Whatever a parser accepts of a text is sound, and has the names and the integers of the text. -/
theorem standsFor_of_accepted (source : String) :
    (∀ p, parseProgram (tokenize source) = .ok p → StandsFor source p.body) ∧
      ∀ n, parse (tokenize source) = .ok n → StandsFor source [n] := by
  constructor
  · intro p h
    exact standsFor_of_statements (statements_of_parseProgram _ p.body h)
  · intro n h
    exact standsFor_of_statements (Grammar.statements_singleton ((parse_eq_ok_iff _ n).1 h))

/-- Two statements on three lines, and one of them alone. -/
theorem standsFor_of_two_statements :
    let sum : Node := .binary .add (.integer 1) (.var "y_2")
    let p : Program := ⟨[.assign "x" (.binary .mul sum (.integer 7)), .binary .sub (.var "x") (.integer 3)]⟩
    let n : Node := .binary .sub (.var "x") (.integer 3)
    parseProgram (tokenize "x = (1 +\n  y_2) * 007 # z\nx - 3\n") = .ok p ∧
      StandsFor "x = (1 +\n  y_2) * 007 # z\nx - 3\n" p.body ∧
      parse (tokenize "(x) - 03") = .ok n ∧ StandsFor "(x) - 03" [n] := by
  intro sum p n
  have hp : parseProgram (tokenize "x = (1 +\n  y_2) * 007 # z\nx - 3\n") = .ok p := by decide +kernel
  have hn : parse (tokenize "(x) - 03") = .ok n := by decide +kernel
  exact ⟨hp, (standsFor_of_accepted _).1 p hp, hn, (standsFor_of_accepted _).2 n hn⟩

end ExprLang
