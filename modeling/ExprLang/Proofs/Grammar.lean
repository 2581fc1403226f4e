import Mathlib.Data.List.Chain
import ExprLang.Parser.Program

/-!
# The grammar of statements

What the tokens of a statement look like, and which tree they stand for, without a parser.

* `Grammar.Derives` : factors, terms and expressions, by the number of parentheses around them;
* `Grammar.Statement` : one statement; `Grammar.Statements` : a list of statements on lines of their own;
* `Derives.ne_nil`, `Derives.not_equalsSign` : no part is empty, and none holds an equals sign;
* `Usable` : the tokens that statements are made of, `Statements.usable`.
-/

namespace ExprLang.Grammar

/-- The three levels of an expression. -/
inductive Level where
  | factor
  | term
  | expression
  deriving DecidableEq, Repr

/-- Whether the operator `o` may follow the tokens `before`: inside parentheses always, and outside only if it is not
below the token just before it. -/
def Joins (depth : Nat) (before : List Token) (o : Token) : Prop :=
  0 < depth ∨ ∀ t ∈ before.getLast?, o.line ≤ t.line

/-- `Derives level depth ts n` : inside `depth` parentheses the tokens `ts` are a part of the level `level`, and stand
for the tree `n`. The operators of one level join from the left. -/
inductive Derives : Level → Nat → List Token → Node → Prop
  | integer {depth t i} (kind : t.kind = .integerLiteral) (value : Numeral.int64? t.text = some i) :
      Derives .factor depth [t] (.integer i)
  | name {depth t} (kind : t.kind = .identifier) : Derives .factor depth [t] (.var t.text)
  | group {depth o ts c n} (room : depth < maxNesting) (opening : o.isOperator "(" = true)
      (inner : Derives .expression (depth + 1) ts n) (closing : c.isOperator ")" = true) :
      Derives .factor depth (o :: (ts ++ [c])) n
  | factor {depth ts n} (alone : Derives .factor depth ts n) : Derives .term depth ts n
  | product {depth ts us o op l r} (left : Derives .term depth ts l) (kind : o.kind = .operator)
      (spelling : BinOp.multiplicative? o.text = some op) (joins : Joins depth ts o)
      (right : Derives .factor depth us r) : Derives .term depth (ts ++ o :: us) (.binary op l r)
  | term {depth ts n} (alone : Derives .term depth ts n) : Derives .expression depth ts n
  | sum {depth ts us o op l r} (left : Derives .expression depth ts l) (kind : o.kind = .operator)
      (spelling : BinOp.additive? o.text = some op) (joins : Joins depth ts o)
      (right : Derives .term depth us r) : Derives .expression depth (ts ++ o :: us) (.binary op l r)

/-- `Statement ts n` : the tokens `ts` are one statement, and stand for the tree `n`. -/
inductive Statement : List Token → Node → Prop
  | expression {ts n} (value : Derives .expression 0 ts n) : Statement ts n
  | assignment {t e ts n} (kind : t.kind = .identifier) (equals : e.isOperator "=" = true) (line : e.line = t.line)
      (value : Derives .expression 0 ts n) : Statement (t :: e :: ts) (.assign t.text n)

/-- Whether the tokens `us` begin below the last of the tokens `ts`. -/
def Below (ts us : List Token) : Prop := ∀ t ∈ ts.getLast?, ∀ u ∈ us.head?, t.line < u.line

/-- `Statements ts body` : the tokens `ts` are cut into statements that stand for the trees `body`, in order, and each
statement begins below the token before it. -/
def Statements (ts : List Token) (body : List Node) : Prop :=
  ∃ parts : List (List Token), parts.flatten = ts ∧ List.Forall₂ Statement parts body ∧ parts.IsChain Below

/-! ## Basic facts -/

namespace Derives

variable {level : Level} {depth : Nat} {ts : List Token} {n : Node}

theorem ne_nil (d : Derives level depth ts n) : ts ≠ [] := by
  induction d with
  | integer | name | group => exact List.cons_ne_nil _ _
  | product | sum => exact List.append_ne_nil_of_right_ne_nil _ (List.cons_ne_nil _ _)
  | factor _ ih | term _ ih => exact ih

theorem symbol_ne_equalsSign (op : BinOp) : op.symbol ≠ "=" := by
  cases op <;> decide

theorem not_equalsSign_append {us : List Token} {o : Token} (left : ∀ t ∈ ts, t.isOperator "=" = false)
    (middle : o.text ≠ "=") (right : ∀ t ∈ us, t.isOperator "=" = false) :
    ∀ t ∈ ts ++ o :: us, t.isOperator "=" = false := by
  intro t ht
  rcases List.mem_append.1 ht with ht | ht
  · exact left t ht
  · rcases List.mem_cons.1 ht with rfl | ht
    · simp [Token.isOperator, middle]
    · exact right t ht

theorem not_equalsSign (d : Derives level depth ts n) : ∀ t ∈ ts, t.isOperator "=" = false := by
  induction d with
  | integer kind | name kind => simp [Token.isOperator, kind]
  | @group _ o ts c _ _ opening _ closing ih =>
    have ho := ((Token.isOperator_iff _ _).1 opening).2
    have hc := ((Token.isOperator_iff _ _).1 closing).2
    have inner : ∀ t ∈ ts ++ [c], t.isOperator "=" = false :=
      not_equalsSign_append ih (by rw [hc]; decide) (by simp)
    show ∀ t ∈ [] ++ o :: (ts ++ [c]), t.isOperator "=" = false
    exact not_equalsSign_append (by simp) (by rw [ho]; decide) inner
  | product _ _ spelling _ _ ihl ihr =>
    refine not_equalsSign_append ihl ?_ ihr
    rw [← BinOp.symbol_of_multiplicative? _ _ spelling]
    exact symbol_ne_equalsSign _
  | sum _ _ spelling _ _ ihl ihr =>
    refine not_equalsSign_append ihl ?_ ihr
    rw [← BinOp.symbol_of_additive? _ _ spelling]
    exact symbol_ne_equalsSign _
  | factor _ ih | term _ ih => exact ih

end Derives

theorem Statement.ne_nil {ts : List Token} {n : Node} (s : Statement ts n) : ts ≠ [] := by
  cases s with
  | expression value => exact value.ne_nil
  | assignment => exact List.cons_ne_nil _ _

/-! ## The tokens of statements -/

def Usable (t : Token) : Prop :=
  t.kind = .integerLiteral ∨ t.kind = .identifier ∨
    (t.kind = .operator ∧ t.text ∈ ["(", ")", "+", "-", "*", "/", "="])

theorem Usable.not_isEnd {t : Token} (h : Usable t) : t.kind ≠ .endOfFile := by
  rcases h with h | h | ⟨h, -⟩ <;> rw [h] <;> decide

theorem Usable.not_indent {t : Token} (h : Usable t) : t.kind ≠ .indent := by
  rcases h with h | h | ⟨h, -⟩ <;> rw [h] <;> decide

theorem usable_of_isOperator {t : Token} {text : String} (h : t.isOperator text = true)
    (known : text ∈ ["(", ")", "+", "-", "*", "/", "="]) : Usable t := by
  obtain ⟨kind, rfl⟩ := (Token.isOperator_iff _ _).1 h
  exact Or.inr (Or.inr ⟨kind, known⟩)

theorem usable_of_symbol {t : Token} {op : BinOp} (kind : t.kind = .operator) (spelling : op.symbol = t.text) :
    Usable t :=
  Or.inr (Or.inr ⟨kind, by rw [← spelling]; cases op <;> decide⟩)

theorem Derives.usable {level : Level} {depth : Nat} {ts : List Token} {n : Node} (d : Derives level depth ts n) :
    ∀ t ∈ ts, Usable t := by
  induction d with
  | integer kind =>
    rintro t ht
    obtain rfl := List.mem_singleton.1 ht
    exact Or.inl kind
  | name kind =>
    rintro t ht
    obtain rfl := List.mem_singleton.1 ht
    exact Or.inr (Or.inl kind)
  | group _ opening _ closing ih =>
    intro t ht
    rcases List.mem_cons.1 ht with rfl | ht
    · exact usable_of_isOperator opening (by decide)
    · rcases List.mem_append.1 ht with ht | ht
      · exact ih t ht
      · obtain rfl := List.mem_singleton.1 ht
        exact usable_of_isOperator closing (by decide)
  | product _ kind spelling _ _ ihl ihr =>
    intro t ht
    rcases List.mem_append.1 ht with ht | ht
    · exact ihl t ht
    · rcases List.mem_cons.1 ht with rfl | ht
      · exact usable_of_symbol kind (BinOp.symbol_of_multiplicative? _ _ spelling)
      · exact ihr t ht
  | sum _ kind spelling _ _ ihl ihr =>
    intro t ht
    rcases List.mem_append.1 ht with ht | ht
    · exact ihl t ht
    · rcases List.mem_cons.1 ht with rfl | ht
      · exact usable_of_symbol kind (BinOp.symbol_of_additive? _ _ spelling)
      · exact ihr t ht
  | factor _ ih | term _ ih => exact ih

theorem Statement.usable {ts : List Token} {n : Node} (s : Statement ts n) : ∀ t ∈ ts, Usable t := by
  cases s with
  | expression value => exact value.usable
  | assignment kind equals line value =>
    intro u hu
    rcases List.mem_cons.1 hu with rfl | hu
    · exact Or.inr (Or.inl kind)
    · rcases List.mem_cons.1 hu with rfl | hu
      · exact usable_of_isOperator equals (by decide)
      · exact value.usable u hu

theorem Statements.usable {ts : List Token} {body : List Node} (h : Statements ts body) : ∀ t ∈ ts, Usable t := by
  obtain ⟨parts, rfl, statements, -⟩ := h
  induction statements with
  | nil =>
    intro t ht
    cases ht
  | cons statement _ ih =>
    intro t ht
    rcases List.mem_append.1 ht with ht | ht
    · exact statement.usable t ht
    · exact ih t ht

end ExprLang.Grammar
