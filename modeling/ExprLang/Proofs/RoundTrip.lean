import ExprLang.Proofs.Node.Printing
import ExprLang.Proofs.Parser.Nesting
import ExprLang.Proofs.Token.Relocation

/-!
# Reading back what was printed

Statements that could come from a text are printed on lines of their own and read back. The printer puts parentheses
about every operation, so a statement is read back exactly if its operations nest no deeper than parentheses may.

* `Flush`, `tokens_of_flush` : lines that are not indented make no marks;
* `derives_of_isPlain`, `overflows_of_isPlain` : the tokens of a printed expression, by how deep it nests;
* `lineTokens` : the tokens of printed statements, line by line;
* `parseProgram_tokenize_text` : what is printed is read back, or the first statement that nests too deep is refused;
* `Node.leftChain` : trees that show the bound to be exact.
-/

namespace ExprLang

open Lexeme (textOf tokensFrom)
open Grammar (Derives Statement Overflows Below)

/-! ## Lines that are not indented -/

/-- No line of the lexemes begins with a space; `start` tells whether a line begins with the first of them. -/
def Flush : (start : Bool) → List Lexeme → Prop
  | _, [] => True
  | start, l :: ls => (start = true → Layout.widthOf [l] = 0) ∧ Flush (l.shape == .newline) ls

theorem flush_append {ks ls : List Lexeme} (hks : ∀ l ∈ ks, l.shape ≠ .newline) (hls : Flush false ls) :
    Flush false (ks ++ ls) := by
  induction ks with
  | nil => exact hls
  | cons k ks ih =>
    obtain ⟨hk, hks⟩ := List.forall_mem_cons.1 hks
    refine ⟨fun h => absurd h Bool.false_ne_true, ?_⟩
    rw [beq_false_of_ne hk]
    exact ih hks

/-- Lines that are not indented make no marks and open no block. -/
theorem tokens_of_flush (s : Scan) (ls : List Lexeme) (hs : s.layout = {}) (h : Flush s.atLineStart ls) :
    s.tokens ls = tokensFrom s.position ls ∧ (s.last ls).layout = {} := by
  induction ls generalizing s with
  | nil => exact ⟨rfl, hs⟩
  | cons l ls ih =>
    obtain ⟨hl, hls⟩ := h
    have hwidth : s.startsLine (l :: ls) = true → Layout.widthOf (l :: ls) = 0 := by
      intro hstarts
      simp only [Scan.startsLine, Bool.and_eq_true] at hstarts
      exact hl hstarts.1.1
    obtain ⟨htokens, hlast⟩ := ih (s.step l ls) (s.layout_step_of_unindented l ls hs hwidth) hls
    refine ⟨?_, hlast⟩
    rw [Scan.tokens, Scan.emit, s.marks_of_unindented (l :: ls) hs hwidth, htokens]
    rfl

/-! ## Printed expressions -/

namespace Node

theorem shape_ne_newline (n : Node) : ∀ l ∈ n.pieces, l.shape ≠ .newline := by
  induction n with
  | integer | var => simp [pieces]
  | binary op l r ihl ihr =>
    simp only [pieces, spaced, List.mem_cons, List.mem_append, List.not_mem_nil, or_false]
    rintro k (rfl | h | (rfl | rfl | rfl) | h | rfl) <;> first | exact ihl _ h | exact ihr _ h | simp
  | assign x v ih =>
    simp only [pieces, spaced, List.mem_cons, List.mem_append, List.not_mem_nil, or_false]
    rintro k (rfl | (rfl | rfl | rfl) | h) <;> first | exact ih _ h | simp

theorem newline_notMem_name (x : String) (h : isName x = true) : '\n' ∉ x.toList := by
  unfold isName at h
  split at h
  · cases h
  · next c cs hxs =>
    simp only [Bool.and_eq_true, List.all_eq_true] at h
    rw [hxs, List.mem_cons, not_or]
    constructor
    · rintro rfl
      exact absurd h.1.1 (by decide)
    · intro hmem
      exact absurd (h.1.2 _ hmem) (by decide)

theorem newline_notMem_of_isPlain (n : Node) (h : n.isPlain = true) : '\n' ∉ n.text.toList := by
  induction n with
  | integer i =>
    intro hmem
    exact absurd (isDigit_of_mem_ofInt64 i (of_decide_eq_true h) _ hmem) (by decide)
  | var x => exact newline_notMem_name x h
  | binary op l r ihl ihr =>
    obtain ⟨hl, hr⟩ := Bool.and_eq_true_iff.1 h
    have hop : '\n' ∉ op.symbol.toList := by cases op <;> decide
    simp [text, ihl hl, ihr hr, hop]
  | assign x v => cases h

theorem newline_notMem_text (n : Node) (h : n.isWritable = true) : '\n' ∉ n.text.toList := by
  cases n with
  | assign x v =>
    obtain ⟨hx, hv⟩ := Bool.and_eq_true_iff.1 h
    simp [text, newline_notMem_name x hx, newline_notMem_of_isPlain v hv]
  | integer | var | binary => exact newline_notMem_of_isPlain _ h

theorem line_of_mem_tokensFrom (n : Node) (h : n.isWritable = true) (p : Position) (t : Token)
    (ht : t ∈ tokensFrom p n.pieces) : t.line = p.line := by
  have hlow := Lexeme.le_line_of_mem_tokensFrom p n.pieces t ht
  have hhigh := Lexeme.endLine_le_of_mem_tokensFrom p n.pieces t ht
  rw [textOf_pieces, Position.line_after, List.count_eq_zero.2 (n.newline_notMem_text h)] at hhigh
  omega

theorem tokensFrom_spaced (p : Position) (symbol : List Char) (ls : List Lexeme) : ∃ q p₁,
    tokensFrom p (spaced symbol ++ ls) = q :: tokensFrom p₁ ls ∧ q.kind = .operator ∧ q.text = String.ofList symbol :=
  ⟨_, _, rfl, rfl, rfl⟩

/-- A printed operation: two operands with an operator between them, in parentheses. -/
theorem tokensFrom_binary (op : BinOp) (l r : Node) (p : Position) : ∃ o q c p₁ p₂,
    tokensFrom p (binary op l r).pieces = o :: ((tokensFrom p₁ l.pieces ++ q :: tokensFrom p₂ r.pieces) ++ [c]) ∧
      o.isOperator "(" = true ∧ q.kind = .operator ∧ q.text = op.symbol ∧ c.isOperator ")" = true := by
  let p₁ := p.after ['(']
  obtain ⟨q, p₂, hq, kind, text⟩ := tokensFrom_spaced (p₁.after (textOf l.pieces)) op.symbol.toList
    (r.pieces ++ [⟨.closing, [')']⟩])
  rw [String.ofList_toList] at text
  let o : Token := { toPosition := p, kind := .operator, text := "(" }
  let c : Token := { toPosition := p₂.after (textOf r.pieces), kind := .operator, text := ")" }
  refine ⟨o, q, c, p₁, p₂, ?_, rfl, kind, text, rfl⟩
  calc tokensFrom p (binary op l r).pieces
      = o :: tokensFrom p₁ (l.pieces ++ (spaced op.symbol.toList ++ (r.pieces ++ [⟨.closing, [')']⟩]))) := rfl
    _ = o :: (tokensFrom p₁ l.pieces ++ q :: (tokensFrom p₂ r.pieces ++ [c])) := by
        rw [Lexeme.tokensFrom_append, hq, Lexeme.tokensFrom_append]
        rfl
    _ = o :: ((tokensFrom p₁ l.pieces ++ q :: tokensFrom p₂ r.pieces) ++ [c]) := by
        rw [List.append_assoc, List.cons_append]

theorem isReserved_of_isName (x : String) (h : isName x = true) : isReserved x = false := by
  unfold isName at h
  split at h
  · cases h
  · simp only [Bool.and_eq_true, Bool.not_eq_true'] at h
    exact h.2

theorem kind?_name (x : String) (h : isName x = true) : (Lexeme.mk .word x.toList).kind? = some .identifier := by
  simp only [Lexeme.kind?, String.ofList_toList, isReserved_of_isName x h, Bool.false_eq_true, if_false]

theorem kind?_numeral (i : Int64) (hi : 0 ≤ i) :
    (Lexeme.mk .number (Numeral.ofInt64 i).toList).kind? = some .integerLiteral := by
  have hpoint : (Numeral.ofInt64 i).toList.contains '.' = false := by
    rw [Bool.eq_false_iff, Ne, List.contains_iff_mem]
    intro hmem
    exact absurd (isDigit_of_mem_ofInt64 i hi _ hmem) (by decide)
  simp only [Lexeme.kind?, hpoint, Bool.false_eq_true, if_false]

theorem tokensFrom_assign (x : String) (v : Node) (p : Position) (hx : isName x = true) : ∃ t e p₁,
    tokensFrom p (assign x v).pieces = t :: e :: tokensFrom p₁ v.pieces ∧ t.kind = .identifier ∧ t.text = x ∧
      e.isOperator "=" = true := by
  obtain ⟨e, p₁, he, kind, text⟩ := tokensFrom_spaced (p.after x.toList) ['='] v.pieces
  refine ⟨{ toPosition := p, kind := .identifier, text := x }, e, p₁, ?_, rfl, rfl,
    (Token.isOperator_iff _ _).2 ⟨kind, text⟩⟩
  rw [pieces, tokensFrom, he, Lexeme.token?, kind?_name x hx, Option.map_some, String.ofList_toList]
  rfl

theorem additive?_or_multiplicative? (op : BinOp) :
    BinOp.additive? op.symbol = some op ∨ BinOp.multiplicative? op.symbol = some op := by
  cases op <;> decide

theorem derives_of_isPlain (n : Node) (h : n.isPlain = true) (depth : Nat) (room : n.nesting + depth ≤ maxNesting)
    (p : Position) : Derives .factor depth (tokensFrom p n.pieces) n := by
  induction n generalizing depth p with
  | integer i =>
    rw [pieces, tokensFrom, tokensFrom, Lexeme.token?, kind?_numeral i (of_decide_eq_true h)]
    refine .integer rfl ?_
    rw [String.ofList_toList, Numeral.int64?_ofInt64]
  | var x =>
    rw [pieces, tokensFrom, tokensFrom, Lexeme.token?, kind?_name x h, Option.map_some, String.ofList_toList]
    exact .name rfl
  | binary op l r ihl ihr =>
    obtain ⟨hl, hr⟩ := Bool.and_eq_true_iff.1 h
    obtain ⟨o, q, c, p₁, p₂, htokens, opening, kind, text, closing⟩ := tokensFrom_binary op l r p
    have hnesting : (binary op l r).nesting = max l.nesting r.nesting + 1 := rfl
    have left := ihl hl (depth + 1) (by omega) p₁
    have right := ihr hr (depth + 1) (by omega) p₂
    rw [htokens]
    refine .group (by omega) opening ?_ closing
    rcases additive?_or_multiplicative? op with spelling | spelling
    · rw [← text] at spelling
      exact .sum (.term (.factor left)) kind spelling (Or.inl (Nat.succ_pos depth)) (.factor right)
    · rw [← text] at spelling
      exact .term (.product (.factor left) kind spelling (Or.inl (Nat.succ_pos depth)) right)
  | assign x v => cases h

/-- The tokens of a printed expression that nests too deep come to a parenthesis that does. -/
theorem overflows_of_isPlain (n : Node) (h : n.isPlain = true) (depth : Nat) (hd : depth ≤ maxNesting)
    (deep : maxNesting < n.nesting + depth) (p : Position) (rest : List Token) :
    ∃ t ∈ tokensFrom p n.pieces, t.isOperator "(" = true ∧ Overflows depth (tokensFrom p n.pieces ++ rest) t := by
  induction n generalizing depth p rest with
  | integer | var =>
    rw [nesting] at deep
    omega
  | binary op l r ihl ihr =>
    obtain ⟨hl, hr⟩ := Bool.and_eq_true_iff.1 h
    obtain ⟨o, q, c, p₁, p₂, htokens, opening, kind, text, closing⟩ := tokensFrom_binary op l r p
    have hnesting : (binary op l r).nesting = max l.nesting r.nesting + 1 := rfl
    rw [htokens]
    by_cases hfull : maxNesting ≤ depth
    · exact ⟨o, List.mem_cons_self, opening, .here hfull opening⟩
    · have room : depth < maxNesting := Nat.lt_of_not_le hfull
      have happ : o :: (tokensFrom p₁ l.pieces ++ q :: tokensFrom p₂ r.pieces ++ [c]) ++ rest =
          o :: (tokensFrom p₁ l.pieces ++ q :: (tokensFrom p₂ r.pieces ++ c :: rest)) := by
        simp
      rw [happ]
      -- either the left operand comes to it, or the left operand is in order and the right one does
      by_cases hleft : maxNesting < l.nesting + (depth + 1)
      · obtain ⟨t, ht, hparen, inner⟩ := ihl hl (depth + 1) room hleft p₁ (q :: (tokensFrom p₂ r.pieces ++ c :: rest))
        exact ⟨t, by simp [ht], hparen, .first room opening inner⟩
      · have left := l.derives_of_isPlain hl (depth + 1) (Nat.le_of_not_lt hleft) p₁
        obtain ⟨t, ht, hparen, right⟩ := ihr hr (depth + 1) room (by omega) p₂ (c :: rest)
        refine ⟨t, by simp [ht], hparen, ?_⟩
        rcases additive?_or_multiplicative? op with spelling | spelling
        · exact .term room opening (.term (.factor left)) kind (text ▸ spelling) right
        · exact .factor room opening (.factor left) kind (text ▸ spelling) right
  | assign x v => cases h

/-! ## Printed statements -/

theorem statement_of_isWritable (n : Node) (h : n.isWritable = true) (room : n.nesting ≤ maxNesting) (p : Position) :
    Statement (tokensFrom p n.pieces) n := by
  cases n with
  | assign x v =>
    obtain ⟨hx, hv⟩ := Bool.and_eq_true_iff.1 h
    obtain ⟨t, e, p₁, htokens, kind, rfl, equals⟩ := tokensFrom_assign x v p hx
    have hline := line_of_mem_tokensFrom _ h p
    rw [htokens] at hline ⊢
    refine .assignment kind equals ?_ (.term (.factor (v.derives_of_isPlain hv 0 room p₁)))
    rw [hline t (by simp), hline e (by simp)]
  | integer | var | binary => exact .expression (.term (.factor (derives_of_isPlain _ h 0 room p)))

/-- A printed statement that nests too deep is refused at one of its parentheses. -/
theorem run_statement_of_deep (n : Node) (h : n.isWritable = true) (deep : maxNesting < n.nesting) (p : Position)
    (rest : List Token) : ∃ t ∈ tokensFrom p n.pieces, t.isOperator "(" = true ∧
      ∀ s : Parser, s.depth = 0 → s.ahead = tokensFrom p n.pieces ++ rest →
        ∃ q, Rule.statement.run s = .error t.tooDeep q := by
  cases n with
  | assign x v =>
    obtain ⟨hx, hv⟩ := Bool.and_eq_true_iff.1 h
    obtain ⟨y, e, p₁, htokens, kind, rfl, equals⟩ := tokensFrom_assign x v p hx
    have hline := line_of_mem_tokensFrom _ h p
    rw [htokens] at hline ⊢
    have hlines : e.line = y.line := by rw [hline y (by simp), hline e (by simp)]
    obtain ⟨t, ht, hparen, overflows⟩ := v.overflows_of_isPlain hv 0 (Nat.zero_le _) deep p₁ rest
    exact ⟨t, by simp [ht], hparen, fun s hd hs =>
      Grammar.run_assignment_of_overflows kind equals hlines overflows s hd hs⟩
  | integer | var | binary =>
    obtain ⟨t, ht, hparen, overflows⟩ := overflows_of_isPlain _ h 0 (Nat.zero_le _) deep p rest
    exact ⟨t, ht, hparen, fun s hd hs => Grammar.run_statement_of_overflows overflows s hd hs⟩

/-! ## Printed programs -/

theorem widthOf_pieces (n : Node) (h : n.isWritable = true) (ls : List Lexeme) :
    Layout.widthOf (n.pieces ++ ls) = 0 := by
  have hvisible : ∀ m : Node, m.isPlain = true → (m.text.toList.takeWhile (· == ' ')).length = 0 := by
    intro m hm
    obtain ⟨c, cs, hcs, hc⟩ := m.exists_text_eq_cons hm
    have hspace : ¬ (c == ' ') = true := by
      intro hs
      rw [eq_of_beq hs] at hc
      exact absurd hc (by decide)
    rw [hcs, List.takeWhile_cons_of_neg (by exact hspace), List.length_nil]
  cases n with
  | integer i => exact hvisible (integer i) h
  | var x => exact hvisible (var x) h
  | binary => rfl
  | assign x v => exact hvisible (var x) (Bool.and_eq_true_iff.1 h).1

theorem exists_pieces_eq_cons (n : Node) : ∃ l ks, n.pieces = l :: ks := by
  cases n <;> exact ⟨_, _, rfl⟩

theorem flush_pieces (n : Node) (h : n.isWritable = true) (start : Bool) (ls : List Lexeme) (hls : Flush false ls) :
    Flush start (n.pieces ++ ls) := by
  have hwidth := n.widthOf_pieces h ls
  have hshape := n.shape_ne_newline
  obtain ⟨l, ks, hks⟩ := n.exists_pieces_eq_cons
  rw [hks] at hwidth hshape ⊢
  obtain ⟨hl, hks⟩ := List.forall_mem_cons.1 hshape
  refine ⟨fun _ => hwidth, ?_⟩
  rw [beq_false_of_ne hl]
  exact flush_append hks hls

theorem flush_lines (body : List Node) (h : ∀ n ∈ body, n.isWritable = true) (start : Bool) :
    Flush start (lines body) := by
  induction body generalizing start with
  | nil => trivial
  | cons n body ih =>
    obtain ⟨hn, hbody⟩ := List.forall_mem_cons.1 h
    cases body with
    | nil =>
      have := n.flush_pieces hn start [] trivial
      rwa [List.append_nil] at this
    | cons m ms => exact n.flush_pieces hn start _ ⟨fun hf => absurd hf Bool.false_ne_true, ih hbody true⟩

/-- The tokens of printed statements, line by line from line `k` on. -/
def lineTokens (k : Nat) : List Node → List (List Token)
  | [] => []
  | n :: ns => tokensFrom ⟨k, 0⟩ n.pieces :: lineTokens (k + 1) ns

theorem lineTokens_append (k : Nat) (before after : List Node) :
    lineTokens k (before ++ after) = lineTokens k before ++ lineTokens (k + before.length) after := by
  induction before generalizing k with
  | nil => rfl
  | cons n before ih =>
    rw [List.cons_append, lineTokens, lineTokens, ih, List.length_cons, Nat.add_assoc, Nat.add_comm 1]
    rfl

theorem tokensFrom_lines (k : Nat) (body : List Node) (h : ∀ n ∈ body, n.isWritable = true) :
    tokensFrom ⟨k, 0⟩ (lines body) = (lineTokens k body).flatten := by
  induction body generalizing k with
  | nil => rfl
  | cons n body ih =>
    obtain ⟨hn, hbody⟩ := List.forall_mem_cons.1 h
    cases body with
    | nil => rw [lines, lineTokens, lineTokens, List.flatten_cons, List.flatten_nil, List.append_nil]
    | cons m ms =>
      have hnext : tokensFrom ((Position.mk k 0).after (textOf n.pieces)) (⟨.newline, ['\n']⟩ :: lines (m :: ms)) =
          tokensFrom ⟨k + 1, 0⟩ (lines (m :: ms)) := by
        rw [textOf_pieces, Position.after_of_notMem _ _ (n.newline_notMem_text hn)]
        rfl
      rw [lines, Lexeme.tokensFrom_append, hnext, ih (k + 1) hbody]
      rfl

theorem isChain_lineTokens (k : Nat) (body : List Node) (h : ∀ n ∈ body, n.isWritable = true) (last : List Token)
    (hlast : ∀ t ∈ last.head?, k + body.length ≤ t.line) : (lineTokens k body ++ [last]).IsChain Below := by
  induction body generalizing k with
  | nil => exact List.isChain_singleton _
  | cons n body ih =>
    obtain ⟨hn, hbody⟩ := List.forall_mem_cons.1 h
    have hline := n.line_of_mem_tokensFrom hn ⟨k, 0⟩
    rw [List.length_cons] at hlast
    have hchain := ih (k + 1) hbody fun t ht => by have := hlast t ht; omega
    have hbelow : ∀ us : List Token, (∀ u ∈ us.head?, k < u.line) → Below (tokensFrom ⟨k, 0⟩ n.pieces) us := by
      intro us hus t ht u hu
      rw [hline t (List.mem_of_getLast? ht)]
      exact hus u hu
    cases body with
    | nil => exact .cons_cons (hbelow last fun u hu => by have := hlast u hu; omega) hchain
    | cons m ms =>
      have hm := m.line_of_mem_tokensFrom (List.forall_mem_cons.1 hbody).1 ⟨k + 1, 0⟩
      exact .cons_cons (hbelow _ fun u hu => by rw [hm u (List.mem_of_head? hu)]; exact Nat.lt_succ_self k) hchain

theorem forall₂_lineTokens (k : Nat) (body : List Node) (h : ∀ n ∈ body, n.isWritable = true)
    (room : ∀ n ∈ body, n.nesting ≤ maxNesting) : List.Forall₂ Statement (lineTokens k body) body := by
  induction body generalizing k with
  | nil => exact .nil
  | cons n body ih =>
    obtain ⟨hn, hbody⟩ := List.forall_mem_cons.1 h
    obtain ⟨hroom, hrooms⟩ := List.forall_mem_cons.1 room
    exact .cons (n.statement_of_isWritable hn hroom _) (ih (k + 1) hbody hrooms)

end Node

theorem liveTokens_tokenize_text (body : List Node) (h : ∀ n ∈ body, n.isWritable = true) :
    liveTokens (tokenize ("\n".intercalate (body.map Node.text))) = (Node.lineTokens 1 body).flatten := by
  obtain ⟨htokens, hlast⟩ := tokens_of_flush {} (Node.lines body) rfl (Node.flush_lines body h true)
  have hlines : tokensFrom (Scan.position {}) (Node.lines body) = (Node.lineTokens 1 body).flatten :=
    Node.tokensFrom_lines 1 body h
  rw [tokenize_eq, Node.lexemes_program body h, htokens, hlast, hlines]
  have hlive : ∀ t ∈ (Node.lineTokens 1 body).flatten, (t.kind != .endOfFile) = true := by
    intro t ht
    rw [← hlines] at ht
    have := Lexeme.isContent_of_mem_tokensFrom _ _ t ht
    simp only [Token.isContent, Bool.and_eq_true] at this
    exact this.2
  show List.takeWhile _ ((_ ++ []) ++ _) = _
  rw [List.append_nil, List.takeWhile_append_of_pos hlive, List.takeWhile_cons_of_neg Bool.false_ne_true, List.append_nil]

theorem Rule.onTokens_eq_error {α : Type} (rule : Rule α) (tokens : List Token) (d : Diagnostic)
    (h : ∃ q, rule.run (.ofTokens tokens) = .error d q) : rule.onTokens tokens = .error d :=
  (Rule.onTokens_eq_error_iff rule tokens d).2 h

/-- Statements that could come from a text, printed on lines of their own, are read back if their operations nest
`maxNesting` deep at most. If not, the first that nests deeper is refused, at a parenthesis on its line. -/
theorem parseProgram_tokenize_text (body : List Node) (writable : ∀ n ∈ body, n.isWritable = true) :
    ((∀ n ∈ body, n.nesting ≤ maxNesting) →
      parseProgram (tokenize ("\n".intercalate (body.map Node.text))) = .ok ⟨body⟩) ∧
    ∀ before n after, body = before ++ n :: after → (∀ m ∈ before, m.nesting ≤ maxNesting) → maxNesting < n.nesting →
      ∃ column, parseProgram (tokenize ("\n".intercalate (body.map Node.text))) =
        .error (Token.tooDeep { line := before.length + 1, column, kind := .operator, text := "(" }) := by
  have hlive := liveTokens_tokenize_text body writable
  constructor
  · intro room
    have chain := Node.isChain_lineTokens 1 body writable [] (by rintro t ⟨⟩)
    exact parseProgram_of_statements _ body
      ⟨_, hlive.symm, Node.forall₂_lineTokens 1 body writable room, chain.left_of_append⟩
  · rintro before n after rfl room deep
    rw [List.forall_mem_append, List.forall_mem_cons] at writable
    obtain ⟨hbefore, hn, -⟩ := writable
    obtain ⟨t, ht, hparen, fails⟩ := n.run_statement_of_deep hn deep ⟨1 + before.length, 0⟩
      (Node.lineTokens (1 + before.length + 1) after).flatten
    have hline : t.line = before.length + 1 := (n.line_of_mem_tokensFrom hn _ t ht).trans (Nat.add_comm _ _)
    obtain ⟨u, us, hus⟩ := List.exists_cons_of_ne_nil (List.ne_nil_of_mem ht)
    have huline : u.line = 1 + before.length :=
      n.line_of_mem_tokensFrom hn ⟨1 + before.length, 0⟩ u (by rw [hus]; exact List.mem_cons_self)
    rw [Node.lineTokens_append, List.flatten_append, Node.lineTokens, List.flatten_cons] at hlive
    rw [hus, List.cons_append] at hlive fails
    obtain ⟨kind, text⟩ := (Token.isOperator_iff t "(").1 hparen
    refine ⟨t.column, ?_⟩
    rw [← hline, ← kind, ← text]
    exact Rule.onTokens_eq_error _ _ _ (Grammar.program_error (Node.forall₂_lineTokens 1 before hbefore room)
      (Node.isChain_lineTokens 1 before hbefore _ (by rintro v ⟨⟩; exact Nat.le_of_eq huline.symm)) fails _ rfl hlive)

/-- A chain of `n` subtractions that joins from the left. -/
def Node.leftChain : Nat → Node
  | 0 => var "x"
  | n + 1 => binary .sub (leftChain n) (integer 1)

theorem Node.isPlain_leftChain (n : Nat) : (leftChain n).isPlain = true := by
  induction n with
  | zero => decide
  | succ n ih => exact Bool.and_eq_true_iff.2 ⟨ih, by decide⟩

theorem Node.nesting_leftChain (n : Nat) : (leftChain n).nesting = n := by
  induction n with
  | zero => rfl
  | succ n ih =>
    show max (leftChain n).nesting 0 + 1 = n + 1
    rw [ih, Nat.max_zero]

/-- The bound is exact: a chain of 256 is read back, and one of 257 is refused on its line. -/
theorem parseProgram_tokenize_leftChain :
    (∀ n ∈ [Node.assign "y" (.leftChain 256), .leftChain 257], n.isWritable = true) ∧
    parseProgram (tokenize ("\n".intercalate ([Node.assign "y" (.leftChain 256)].map Node.text))) =
      .ok ⟨[.assign "y" (.leftChain 256)]⟩ ∧
    ∃ column,
      parseProgram (tokenize ("\n".intercalate ([Node.assign "y" (.leftChain 256), .leftChain 257].map Node.text))) =
        .error (Token.tooDeep { line := 2, column, kind := .operator, text := "(" }) := by
  have assigned : ∀ n, (Node.assign "y" (.leftChain n)).isWritable = true := by
    intro n
    show (isName "y" && (Node.leftChain n).isPlain) = true
    rw [Node.isPlain_leftChain]
    decide
  have room : (Node.assign "y" (.leftChain 256)).nesting ≤ maxNesting := Nat.le_of_eq (Node.nesting_leftChain 256)
  have deep : maxNesting < (Node.leftChain 257).nesting := by
    rw [Node.nesting_leftChain]
    exact Nat.lt_succ_self 256
  have both : ∀ n ∈ [Node.assign "y" (.leftChain 256), .leftChain 257], n.isWritable = true := by
    rw [List.forall_mem_cons, List.forall_mem_singleton]
    exact ⟨assigned 256, Node.isWritable_of_isPlain _ (Node.isPlain_leftChain 257)⟩
  refine ⟨both, ?_, ?_⟩
  · exact (parseProgram_tokenize_text _ (List.forall_mem_singleton.2 (assigned 256))).1 (List.forall_mem_singleton.2 room)
  · exact (parseProgram_tokenize_text _ both).2 [_] _ [] rfl (List.forall_mem_singleton.2 room) deep

end ExprLang
