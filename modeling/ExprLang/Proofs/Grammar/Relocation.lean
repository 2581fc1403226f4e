import Mathlib.Order.Monotone.Basic
import ExprLang.Proofs.Grammar.Parentheses
import ExprLang.Proofs.Grammar.Stuck
import ExprLang.Proofs.Token.Lines
import ExprLang.Proofs.Token.Relocation

/-!
# The grammar and the places of tokens

The grammar compares the lines of tokens that stand side by side, and only outside parentheses. So tokens may move as
long as these comparisons stay.

* `Grammar.Keeps` : tokens that are moved so, `Keeps.split`, `Keeps.append`;
* `Derives.keeps`, `Statement.keeps`, `Statements.keeps` : they stand for the same trees;
* `Diagnostic.move` : diagnostics in other lines and columns;
* `StuckSole.move`, `StuckProgram.move` : lines that are moved in order get stuck at the same token;
* `StuckProgram.prepend` : statements that come before.
-/

namespace ExprLang

namespace Grammar

/-! ## Brackets -/

theorem bracketsAfter_opening (depth : Nat) {t : Token} (h : t.isOperator "(" = true) :
    bracketsAfter depth t = depth + 1 := by
  rw [bracketsAfter, h]
  rfl

theorem bracketsAfter_closing (depth : Nat) {t : Token} (h : t.isOperator ")" = true) :
    bracketsAfter depth t = depth - 1 := by
  obtain ⟨kind, text⟩ := (Token.isOperator_iff _ _).1 h
  simp [bracketsAfter, Token.isOperator, kind, text]

theorem bracketsAfter_of_kind (depth : Nat) {t : Token} (h : t.kind ≠ .operator) : bracketsAfter depth t = depth := by
  simp [bracketsAfter, Token.isOperator, h]

theorem bracketsAfter_symbol (depth : Nat) {t : Token} {op : BinOp} (h : op.symbol = t.text) :
    bracketsAfter depth t = depth := by
  cases op <;> simp [bracketsAfter, Token.isOperator, ← h, BinOp.symbol]

theorem bracketsAfter_equalsSign (depth : Nat) {t : Token} (h : t.isOperator "=" = true) :
    bracketsAfter depth t = depth := by
  obtain ⟨kind, text⟩ := (Token.isOperator_iff _ _).1 h
  simp [bracketsAfter, Token.isOperator, text]

theorem bracketsAfter_of_isPlain (depth : Nat) (t : Token) (usable : Usable t) (plain : t.IsPlain) :
    bracketsAfter depth t = depth := by
  rcases usable with kind | kind | ⟨kind, text⟩
  · exact bracketsAfter_of_kind depth (by rw [kind]; decide)
  · exact bracketsAfter_of_kind depth (by rw [kind]; decide)
  · simp only [List.mem_cons, List.not_mem_nil, or_false] at text
    rcases text with text | text | text | text | text | text | text <;>
      simp [Token.IsPlain, Token.isOperator, kind, text] at plain <;>
      simp [bracketsAfter, Token.isOperator, text]

theorem bracketsAfter_bracketsAfter (depth : Nat) (o c : Token) (opening : o.isOperator "(" = true)
    (closing : c.isOperator ")" = true) : bracketsAfter (bracketsAfter depth o) c = depth := by
  rw [bracketsAfter_opening _ opening, bracketsAfter_closing _ closing, Nat.add_sub_cancel]

section

variable {ts : List Token} (brackets : Nat)

theorem Derives.foldl_bracketsAfter {level : Level} {depth : Nat} {n : Node} (d : Derives level depth ts n) :
    ts.foldl bracketsAfter brackets = brackets :=
  d.foldl_eq bracketsAfter_of_isPlain bracketsAfter_bracketsAfter brackets

theorem Statement.foldl_bracketsAfter {n : Node} (s : Statement ts n) : ts.foldl bracketsAfter brackets = brackets :=
  s.foldl_eq bracketsAfter_of_isPlain bracketsAfter_bracketsAfter brackets

theorem Statements.foldl_bracketsAfter {body : List Node} (h : Statements ts body) :
    ts.foldl bracketsAfter brackets = brackets :=
  h.foldl_eq bracketsAfter_of_isPlain bracketsAfter_bracketsAfter brackets

end

/-! ## Lists of statements -/

/-- The first statement and the others, which begin below it. -/
theorem Statements.exists_append {ts : List Token} {n : Node} {body : List Node} (h : Statements ts (n :: body)) :
    ∃ us vs, ts = us ++ vs ∧ Statement us n ∧ Statements vs body ∧ Below us vs := by
  obtain ⟨parts, rfl, statements, chain⟩ := h
  obtain ⟨us, rest, statement, further, rfl⟩ := List.forall₂_cons_right_iff.1 statements
  refine ⟨us, rest.flatten, rfl, statement, ⟨rest, rfl, further, chain.tail⟩, ?_⟩
  cases further with
  | nil => exact below_nil_right us
  | cons next _ =>
    obtain ⟨v, vs, rfl⟩ := List.exists_cons_of_ne_nil next.ne_nil
    exact chain.rel.of_head? fun w hw => hw

/-! ## Tokens that move -/

/-- Whether the last of `ts` and the first of `us` compare by their lines as the last of `ts'` and the first of `us'`
do. -/
def SameBorder (ts us ts' us' : List Token) : Prop :=
  ∀ t ∈ ts.getLast?, ∀ u ∈ us.head?, ∀ t' ∈ ts'.getLast?, ∀ u' ∈ us'.head?,
    cmp t'.line u'.line = cmp t.line u.line

/-- `Keeps depth ts ts'` : the tokens `ts'` are those of `ts` in other places. Where no bracket is open, two tokens that
stand side by side compare by their lines as before; `depth` brackets are open in front. -/
inductive Keeps : Nat → List Token → List Token → Prop
  | nil {depth} : Keeps depth [] []
  | cons {depth t t' ts ts'} (kind : t'.kind = t.kind) (text : t'.text = t.text)
      (border : bracketsAfter depth t = 0 → SameBorder [t] ts [t'] ts') (more : Keeps (bracketsAfter depth t) ts ts') :
      Keeps depth (t :: ts) (t' :: ts')

theorem Keeps.eq_nil_iff {depth : Nat} {ts ts' : List Token} (h : Keeps depth ts ts') : ts' = [] ↔ ts = [] := by
  cases h <;> simp

theorem Keeps.split {depth : Nat} {ts us ws : List Token} (h : Keeps depth (ts ++ us) ws) :
    ∃ ts' us', ws = ts' ++ us' ∧ Keeps depth ts ts' ∧ Keeps (ts.foldl bracketsAfter depth) us us' ∧
      (ts.foldl bracketsAfter depth = 0 → SameBorder ts us ts' us') := by
  induction ts generalizing depth ws with
  | nil => exact ⟨[], ws, rfl, .nil, h, fun _ t ht => by cases ht⟩
  | cons t ts ih =>
    cases h with
    | @cons _ _ t' _ ws kind text border more =>
      obtain ⟨ts', us', rfl, front, rear, hborder⟩ := ih more
      cases ts with
      | nil =>
        obtain rfl := front.eq_nil_iff.2 rfl
        exact ⟨[t'], us', rfl, .cons kind text (fun _ _ _ u hu => by cases hu) .nil, rear, border⟩
      | cons u ts =>
        obtain ⟨u', ts', rfl⟩ := List.exists_cons_of_ne_nil (mt front.eq_nil_iff.1 (List.cons_ne_nil u ts))
        exact ⟨t' :: u' :: ts', us', rfl, .cons kind text border front, rear, hborder⟩

theorem Keeps.append {depth : Nat} {ts us ts' us' : List Token} (h : Keeps depth ts ts')
    (h' : Keeps (ts.foldl bracketsAfter depth) us us')
    (border : ts.foldl bracketsAfter depth = 0 → SameBorder ts us ts' us') : Keeps depth (ts ++ us) (ts' ++ us') := by
  induction h with
  | nil => exact h'
  | @cons depth t t' ts ts' kind text border' more ih =>
    cases more with
    | nil => exact .cons kind text border h'
    | cons kind' text' border'' more => exact .cons kind text border' (ih h' border)

/-- Tokens that all move alike keep their places. -/
theorem keeps_of_moved {R : Position → Position → Prop}
    (hR : ∀ p q p' q', R p p' → R q q' → cmp p'.line q'.line = cmp p.line q.line) {ts ts' : List Token}
    (h : List.Forall₂ (Token.Moved R) ts ts') (depth : Nat) : Keeps depth ts ts' := by
  induction h generalizing depth with
  | nil => exact .nil
  | @cons t t' ts ts' ht hts ih =>
    refine .cons ht.kind ht.text (fun _ => ?_) (ih _)
    rintro _ ⟨⟩ u hu _ ⟨⟩ u' hu'
    cases hts with
    | nil => cases hu
    | cons hu'' _ =>
      cases hu
      cases hu'
      exact hR _ _ _ _ ht.position hu''.position

/-! ## The same trees -/

section

variable {depth : Nat} {ts us ts' us' : List Token} {o o' : Token} {n : Node}

theorem SameBorder.joins (h : depth = 0 → SameBorder ts (o :: us) ts' (o' :: us')) (hts : ts ≠ [])
    (joins : Joins depth ts o) : Joins depth ts' o' := by
  rcases Nat.eq_zero_or_pos depth with hd | hd
  · refine Or.inr fun t' ht' => ?_
    have hlast := List.getLast?_eq_some_getLast hts
    have hcmp := h hd _ hlast o rfl t' ht' o' rfl
    rcases joins with hpos | hle
    · omega
    · have hle := hle _ hlast
      by_contra hlt
      rw [(cmp_eq_lt_iff _ _).2 (Nat.lt_of_not_le hlt)] at hcmp
      have := (cmp_eq_lt_iff _ _).1 hcmp.symm
      omega
  · exact Or.inl hd

theorem SameBorder.below (h : SameBorder ts us ts' us') (hts : ts = [] → ts' = []) (hus : us = [] → us' = [])
    (below : Below ts us) : Below ts' us' := by
  intro t' ht' u' hu'
  have hts' : ts ≠ [] := fun hnil => by rw [hts hnil] at ht'; cases ht'
  have hus' : us ≠ [] := fun hnil => by rw [hus hnil] at hu'; cases hu'
  have hlast := List.getLast?_eq_some_getLast hts'
  have hhead := List.head?_eq_some_head hus'
  have hcmp := h _ hlast _ hhead t' ht' u' hu'
  rw [(cmp_eq_lt_iff _ _).2 (below _ hlast _ hhead)] at hcmp
  exact (cmp_eq_lt_iff _ _).1 hcmp

theorem isOperator_congr {t t' : Token} (kind : t'.kind = t.kind) (text : t'.text = t.text) (symbol : String) :
    t'.isOperator symbol = t.isOperator symbol := by
  rw [Token.isOperator, Token.isOperator, kind, text]

/-- A part of an expression is the same part where its tokens are moved to. -/
theorem Derives.keeps {level : Level} (d : Derives level depth ts n) (h : Keeps depth ts ts') :
    Derives level depth ts' n := by
  induction d generalizing ts' with
  | integer kind value =>
    cases h with
    | cons hkind htext _ more =>
      cases more
      exact .integer (hkind.trans kind) (htext ▸ value)
  | name kind =>
    cases h with
    | cons hkind htext _ more =>
      cases more
      rw [← htext]
      exact .name (hkind.trans kind)
  | @group depth o ts c n room opening _ closing ih =>
    cases h with
    | cons hkind htext _ more =>
      rw [bracketsAfter_opening depth opening] at more
      obtain ⟨ts', cs', rfl, front, rear, -⟩ := more.split
      cases rear with
      | cons hkind' htext' _ none =>
        cases none
        exact .group room (by rw [isOperator_congr hkind htext, opening]) (ih front)
          (by rw [isOperator_congr hkind' htext', closing])
  | product left kind spelling joins _ ihl ihr =>
    obtain ⟨ts', us', rfl, front, rear, border⟩ := h.split
    rw [left.foldl_bracketsAfter] at rear border
    cases rear with
    | cons hkind htext _ more =>
      rw [bracketsAfter_symbol _ (BinOp.symbol_of_multiplicative? _ _ spelling)] at more
      exact .product (ihl front) (hkind.trans kind) (htext ▸ spelling) (SameBorder.joins border left.ne_nil joins)
        (ihr more)
  | sum left kind spelling joins _ ihl ihr =>
    obtain ⟨ts', us', rfl, front, rear, border⟩ := h.split
    rw [left.foldl_bracketsAfter] at rear border
    cases rear with
    | cons hkind htext _ more =>
      rw [bracketsAfter_symbol _ (BinOp.symbol_of_additive? _ _ spelling)] at more
      exact .sum (ihl front) (hkind.trans kind) (htext ▸ spelling) (SameBorder.joins border left.ne_nil joins)
        (ihr more)
  | factor _ ih => exact .factor (ih h)
  | term _ ih => exact .term (ih h)

theorem Statement.keeps (s : Statement ts n) (h : Keeps 0 ts ts') : Statement ts' n := by
  cases s with
  | expression value => exact .expression (value.keeps h)
  | @assignment t e us m kind equals line value =>
    cases h with
    | @cons _ _ t' _ _ hkind htext border more =>
      rw [bracketsAfter_of_kind 0 (by rw [kind]; decide)] at border more
      cases more with
      | @cons _ _ e' _ _ hkind' htext' _ more =>
        rw [bracketsAfter_equalsSign 0 equals] at more
        have hcmp := border rfl t rfl e rfl t' rfl e' rfl
        rw [line, (cmp_eq_eq_iff _ _).2 rfl] at hcmp
        rw [← htext]
        exact .assignment (hkind.trans kind) (by rw [isOperator_congr hkind' htext', equals])
          ((cmp_eq_eq_iff _ _).1 hcmp).symm (value.keeps more)

/-- Statements stand for the same trees where their tokens are moved to. -/
theorem Statements.keeps {body : List Node} (h : Statements ts body) (hkeeps : Keeps 0 ts ts') :
    Statements ts' body := by
  induction body generalizing ts ts' with
  | nil =>
    obtain ⟨parts, rfl, statements, -⟩ := h
    cases statements
    cases hkeeps
    exact .nil
  | cons n body ih =>
    obtain ⟨us, vs, rfl, statement, further, below⟩ := h.exists_append
    obtain ⟨us', vs', rfl, front, rear, border⟩ := hkeeps.split
    rw [statement.foldl_bracketsAfter] at rear border
    have hbelow : Below us' vs' := (border rfl).below front.eq_nil_iff.2 rear.eq_nil_iff.2 below
    exact (statements_singleton (statement.keeps front)).append (ih further rear) hbelow

end

end Grammar

/-! ## Lines that are moved in order -/

def Diagnostic.move (f : Nat → Nat) (c : Nat → Nat → Nat) (d : Diagnostic) : Diagnostic :=
  { d with line := f d.line, column := d.column.map (c d.line) }

namespace Grammar

theorem strictMono_add (k : Nat) : StrictMono (· + k) := fun _ _ h => Nat.add_lt_add_right h k

section

variable {f : Nat → Nat} (hf : StrictMono f) (c : Nat → Nat → Nat) {depth endLine : Nat} {ts us rest : List Token}
  {o : Token} {n : Node} {d : Diagnostic}

@[simp] theorem isOperator_move (t : Token) (symbol : String) : (t.move f c).isOperator symbol = t.isOperator symbol :=
  rfl

include hf

theorem keeps_move (depth : Nat) (ts : List Token) : Keeps depth ts (ts.map (Token.move f c)) := by
  refine keeps_of_moved (R := fun p q => q.line = f p.line) (fun p q p' q' hp hq => ?_) ?_ depth
  · rw [hp, hq]
    exact hf.cmp_map_eq _ _
  · rw [List.forall₂_map_right_iff]
    exact List.forall₂_same.2 fun t _ => ⟨rfl, rfl, rfl⟩

theorem joins_move : Joins depth (ts.map (Token.move f c)) (o.move f c) ↔ Joins depth ts o := by
  simp only [Joins, List.getLast?_map, Option.mem_def, Option.map_eq_some_iff, forall_exists_index, and_imp,
    forall_apply_eq_imp_iff₂]
  exact or_congr_right (forall₂_congr fun t _ => hf.le_iff_le)

theorem below_move : Below (ts.map (Token.move f c)) (us.map (Token.move f c)) ↔ Below ts us := by
  simp only [Below, List.getLast?_map, List.head?_map, Option.mem_def, Option.map_eq_some_iff, forall_exists_index,
    and_imp, forall_apply_eq_imp_iff₂]
  exact forall₄_congr fun t _ u _ => hf.lt_iff_lt

theorem goesOn_move : GoesOn depth (ts.map (Token.move f c)) (o.move f c) ↔ GoesOn depth ts o :=
  and_congr_right fun _ => and_congr_right fun _ => joins_move hf c

/-! ## Stuck at the same token -/

theorem Stuck.move {level : Level} (h : Stuck endLine level depth ts rest d) :
    Stuck (f endLine) level depth (ts.map (Token.move f c)) (rest.map (Token.move f c)) (d.move f c) := by
  induction h with
  | ended => exact .ended
  | numeral kind value => exact .numeral (t := Token.move f c _) kind value
  | tooDeep full opening => exact .tooDeep (t := Token.move f c _) full opening
  | noFactor integer name opening => exact .noFactor (t := Token.move f c _) integer name opening
  | group room opening _ ih => exact .group room opening ih
  | unclosed room opening inner stop =>
    refine .unclosed (o := Token.move f c _) room opening (inner.keeps (keeps_move hf c _ _)) ?_
    simp only [List.head?_map, Option.mem_def, Option.map_eq_some_iff, forall_exists_index, and_imp,
      forall_apply_eq_imp_iff₂, goesOn_move hf, isOperator_move]
    exact stop
  | factor _ ih => exact .factor ih
  | product left kind spelling joins _ ih =>
    rw [List.map_append, List.map_cons]
    exact .product (left.keeps (keeps_move hf c _ _)) kind spelling ((joins_move hf c).2 joins) ih
  | term _ ih => exact .term ih
  | sum left kind spelling joins _ ih =>
    rw [List.map_append, List.map_cons]
    exact .sum (left.keeps (keeps_move hf c _ _)) kind spelling ((joins_move hf c).2 joins) ih

theorem Ends.move (h : Ends ts rest n) : Ends (ts.map (Token.move f c)) (rest.map (Token.move f c)) n := by
  cases h with
  | expression value stop =>
    refine .expression (value.keeps (keeps_move hf c _ _)) ?_
    simp only [List.head?_map, Option.mem_def, Option.map_eq_some_iff, forall_exists_index, and_imp,
      forall_apply_eq_imp_iff₂, goesOn_move hf, joins_move hf, isOperator_move]
    exact stop
  | @assignment t e _ _ _ kind equals line value stop =>
    refine .assignment (t := t.move f c) (e := e.move f c) kind equals (congrArg f line)
      (value.keeps (keeps_move hf c _ _)) ?_
    simp only [List.head?_map, Option.mem_def, Option.map_eq_some_iff, forall_exists_index, and_imp,
      forall_apply_eq_imp_iff₂, goesOn_move hf]
    exact stop

theorem StuckStatement.move (h : StuckStatement endLine ts rest d) :
    StuckStatement (f endLine) (ts.map (Token.move f c)) (rest.map (Token.move f c)) (d.move f c) := by
  cases h with
  | expression value => exact .expression (value.move hf c)
  | assignment kind equals line value =>
    exact .assignment (t := Token.move f c _) (e := Token.move f c _) kind equals (congrArg f line) (value.move hf c)
  | @target start ts e rest n value equals joins apart =>
    have hjoins := (joins_move hf c).2 joins
    have hvalue := value.keeps (keeps_move hf c _ _)
    rw [List.map_cons] at hjoins hvalue
    refine .target hvalue (e := e.move f c) equals hjoins fun hts hname hline => ?_
    exact apart (List.map_eq_nil_iff.1 hts) hname (hf.injective hline)

theorem StuckSole.move (h : StuckSole endLine ts rest d) :
    StuckSole (f endLine) (ts.map (Token.move f c)) (rest.map (Token.move f c)) (d.move f c) := by
  cases h with
  | statement stuck => exact .statement (stuck.move hf c)
  | @left t _ _ ends => exact .left (t := t.move f c) (ends.move hf c)

theorem StuckProgram.move (h : StuckProgram endLine ts rest d) :
    StuckProgram (f endLine) (ts.map (Token.move f c)) (rest.map (Token.move f c)) (d.move f c) := by
  cases h with
  | @statement ts us _ _ body before below some stuck =>
    rw [List.map_append]
    refine .statement (before.keeps (keeps_move hf c _ _)) ?_ ?_ (stuck.move hf c)
    · rw [← List.map_append]
      exact (below_move hf c).2 below
    · rw [← List.map_append, Ne, List.map_eq_nil_iff]
      exact some
  | @left ts us t rest n body before below ends line =>
    have hline : ¬ Below (us.map (Token.move f c)) ([t].map (Token.move f c)) := mt (below_move hf c).1 line
    rw [List.map_append]
    exact .left (t := t.move f c) (before.keeps (keeps_move hf c _ _)) ((below_move hf c).2 below) (ends.move hf c) hline

end

/-! ## Statements that come before -/

/-- Statements that come before do not matter, if what is stuck begins below them. -/
theorem StuckProgram.prepend {endLine : Nat} {before ts rest : List Token} {body : List Node} {d : Diagnostic}
    (h : StuckProgram endLine ts rest d) (statements : Statements before body) (below : Below before (ts ++ rest)) :
    StuckProgram endLine (before ++ ts) rest d := by
  cases h with
  | @statement ts us _ _ body' before' below' some stuck =>
    rw [List.append_assoc] at below
    rw [← List.append_assoc]
    refine .statement (statements.append before' below.of_append) (below'.append_left ?_) some stuck
    rintro rfl
    exact below
  | @left ts us t rest n body' before' below' ends line =>
    rw [List.append_assoc] at below
    rw [← List.append_assoc]
    refine .left (statements.append before' below.of_append) (below'.append_left ?_) ends line
    rintro rfl
    rw [List.nil_append] at below
    exact below.of_append

end Grammar

end ExprLang
