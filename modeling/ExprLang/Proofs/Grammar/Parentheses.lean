import Mathlib.Data.List.Forall2
import ExprLang.Proofs.Grammar

/-!
# Parentheses

Every part of an expression closes the parentheses that it opens, and no others.

* `openings`, `closings` : the parentheses among the tokens; `Token.IsPlain` : a token that is none;
* `openParentheses` : the parentheses that are still open after some tokens;
* `Derives.foldl_eq`, `Statements.foldl_eq` : a count that takes back at each closing parenthesis what it did at the
  opening one is the same after a part of an expression, and after a list of statements;
* `Derives.foldl_openAfter`, `Statements.openParentheses_append` : the parentheses that are open stay so;
* `Derives.suffix_openAfter` : also in the middle of a part.
-/

namespace ExprLang

def openings (ts : List Token) : Nat := ts.countP (·.isOperator "(")

def closings (ts : List Token) : Nat := ts.countP (·.isOperator ")")

/-- The open parentheses after the token `t`, the last one first. A closing parenthesis closes the last one. -/
def openAfter (stack : List Token) (t : Token) : List Token :=
  if t.isOperator "(" then t :: stack else if t.isOperator ")" then stack.tail else stack

/-- The parentheses among the tokens that no later one closes, the last one first. -/
def openParentheses (ts : List Token) : List Token := ts.foldl openAfter []

def Token.IsPlain (t : Token) : Prop := t.isOperator "(" = false ∧ t.isOperator ")" = false

/-! ## Single tokens -/

namespace Token

theorem isPlain_of_kind {t : Token} (h : t.kind ≠ .operator) : t.IsPlain := by
  simp [IsPlain, isOperator, h]

theorem isPlain_of_symbol {t : Token} {op : BinOp} (h : op.symbol = t.text) : t.IsPlain := by
  cases op <;> simp [IsPlain, isOperator, ← h, BinOp.symbol]

theorem isPlain_of_equalsSign {t : Token} (h : t.isOperator "=" = true) : t.IsPlain := by
  obtain ⟨-, text⟩ := (isOperator_iff _ _).1 h
  simp [IsPlain, isOperator, text]

theorem not_opening_of_closing {t : Token} (h : t.isOperator ")" = true) : t.isOperator "(" = false := by
  obtain ⟨-, text⟩ := (isOperator_iff _ _).1 h
  simp [isOperator, text]

theorem IsPlain.openings_cons {t : Token} (h : t.IsPlain) (ts : List Token) : openings (t :: ts) = openings ts :=
  List.countP_cons_of_neg (by rw [h.1]; exact Bool.false_ne_true)

theorem IsPlain.closings_cons {t : Token} (h : t.IsPlain) (ts : List Token) : closings (t :: ts) = closings ts :=
  List.countP_cons_of_neg (by rw [h.2]; exact Bool.false_ne_true)

theorem IsPlain.openAfter_eq {t : Token} (h : t.IsPlain) (stack : List Token) : openAfter stack t = stack := by
  simp [openAfter, h.1, h.2]

end Token

section

variable {t : Token}

theorem openings_cons_of_opening (h : t.isOperator "(" = true) (ts : List Token) :
    openings (t :: ts) = openings ts + 1 :=
  List.countP_cons_of_pos h

theorem closings_cons_of_opening (h : t.isOperator "(" = true) (ts : List Token) :
    closings (t :: ts) = closings ts := by
  obtain ⟨-, text⟩ := (Token.isOperator_iff _ _).1 h
  exact List.countP_cons_of_neg (by simp [Token.isOperator, text])

theorem openings_singleton_of_closing (h : t.isOperator ")" = true) : openings [t] = 0 := by
  simp [openings, Token.not_opening_of_closing h]

theorem closings_singleton_of_closing (h : t.isOperator ")" = true) : closings [t] = 1 := by
  simp [closings, h]

theorem openAfter_opening (h : t.isOperator "(" = true) (stack : List Token) : openAfter stack t = t :: stack := by
  simp [openAfter, h]

theorem openAfter_closing (h : t.isOperator ")" = true) (stack : List Token) : openAfter stack t = stack.tail := by
  simp [openAfter, Token.not_opening_of_closing h, h]

end

theorem openings_append (ts us : List Token) : openings (ts ++ us) = openings ts + openings us :=
  List.countP_append

theorem closings_append (ts us : List Token) : closings (ts ++ us) = closings ts + closings us :=
  List.countP_append

theorem openParentheses_append (ts us : List Token) :
    openParentheses (ts ++ us) = us.foldl openAfter (openParentheses ts) :=
  List.foldl_append

theorem openParentheses_concat (ts : List Token) (t : Token) :
    openParentheses (ts ++ [t]) = openAfter (openParentheses ts) t :=
  openParentheses_append ts [t]

namespace Grammar

/-! ## Counting over the grammar -/

section foldl

variable {β : Type} {f : β → Token → β} (plain : ∀ b t, Usable t → t.IsPlain → f b t = b)
  (pair : ∀ b o c, o.isOperator "(" = true → c.isOperator ")" = true → f (f b o) c = b)

include plain pair

theorem Derives.foldl_eq {level : Level} {depth : Nat} {ts : List Token} {n : Node} (d : Derives level depth ts n)
    (b : β) : ts.foldl f b = b := by
  induction d generalizing b with
  | integer kind => exact plain b _ (Or.inl kind) (Token.isPlain_of_kind (by rw [kind]; decide))
  | name kind => exact plain b _ (Or.inr (Or.inl kind)) (Token.isPlain_of_kind (by rw [kind]; decide))
  | group _ opening _ closing ih =>
    rw [List.foldl_cons, List.foldl_append, ih, List.foldl_cons, List.foldl_nil, pair b _ _ opening closing]
  | product _ kind spelling _ _ ihl ihr =>
    have symbol := BinOp.symbol_of_multiplicative? _ _ spelling
    have hplain := plain b _ (usable_of_symbol kind symbol) (Token.isPlain_of_symbol symbol)
    rw [List.foldl_append, ihl, List.foldl_cons, hplain, ihr]
  | sum _ kind spelling _ _ ihl ihr =>
    have symbol := BinOp.symbol_of_additive? _ _ spelling
    have hplain := plain b _ (usable_of_symbol kind symbol) (Token.isPlain_of_symbol symbol)
    rw [List.foldl_append, ihl, List.foldl_cons, hplain, ihr]
  | factor _ ih | term _ ih => exact ih b

theorem Statement.foldl_eq {ts : List Token} {n : Node} (s : Statement ts n) (b : β) : ts.foldl f b = b := by
  cases s with
  | expression value => exact value.foldl_eq plain pair b
  | assignment kind equals line value =>
    have hname := plain b _ (Or.inr (Or.inl kind)) (Token.isPlain_of_kind (by rw [kind]; decide))
    have hequals := plain b _ (usable_of_isOperator equals (by decide)) (Token.isPlain_of_equalsSign equals)
    rw [List.foldl_cons, hname, List.foldl_cons, hequals, value.foldl_eq plain pair]

theorem Statements.foldl_eq {ts : List Token} {body : List Node} (h : Statements ts body) (b : β) :
    ts.foldl f b = b := by
  obtain ⟨parts, rfl, statements, -⟩ := h
  induction statements with
  | nil => rfl
  | cons statement _ ih => rw [List.flatten_cons, List.foldl_append, statement.foldl_eq plain pair, ih]

end foldl

/-! ## Open parentheses -/

section

variable {level : Level} {depth : Nat} {ts : List Token} {n : Node}

theorem openAfter_openAfter (stack : List Token) (o c : Token) (opening : o.isOperator "(" = true)
    (closing : c.isOperator ")" = true) : openAfter (openAfter stack o) c = stack := by
  rw [openAfter_opening opening, openAfter_closing closing, List.tail_cons]

theorem Derives.foldl_openAfter (d : Derives level depth ts n) (stack : List Token) :
    ts.foldl openAfter stack = stack :=
  d.foldl_eq (fun stack _ _ h => h.openAfter_eq stack) openAfter_openAfter stack

theorem Derives.openParentheses_append (d : Derives level depth ts n) (front : List Token) :
    openParentheses (front ++ ts) = openParentheses front := by
  rw [ExprLang.openParentheses_append, d.foldl_openAfter]

/-- The beginnings of two parts with a token between them. -/
theorem prefix_append_cons {before us : List Token} {o : Token} (h : before <+: ts ++ o :: us) :
    before <+: ts ∨ ∃ more, before = ts ++ o :: more ∧ more <+: us := by
  obtain ⟨after, h⟩ := h
  rcases List.append_eq_append_iff.1 h with ⟨between, rfl, -⟩ | ⟨between, rfl, hrest⟩
  · exact Or.inl ⟨between, rfl⟩
  · cases between with
    | nil => exact Or.inl ⟨[], by rw [List.append_nil, List.append_nil]⟩
    | cons o' more =>
      obtain ⟨rfl, rfl⟩ := List.cons.inj hrest
      exact Or.inr ⟨more, rfl, after, rfl⟩

theorem suffix_openAfter_append {us before : List Token} {o : Token} {op : BinOp} (stack : List Token)
    (left : Derives level depth ts n) (symbol : op.symbol = o.text) (h : before <+: ts ++ o :: us)
    (inLeft : before <+: ts → stack <:+ before.foldl openAfter stack)
    (inRight : ∀ more, more <+: us → stack <:+ more.foldl openAfter stack) :
    stack <:+ before.foldl openAfter stack := by
  rcases prefix_append_cons h with hbefore | ⟨more, rfl, hmore⟩
  · exact inLeft hbefore
  · rw [List.foldl_append, left.foldl_openAfter, List.foldl_cons, (Token.isPlain_of_symbol symbol).openAfter_eq]
    exact inRight more hmore

/-- In the middle of a part, what was open before it still is. -/
theorem Derives.suffix_openAfter (d : Derives level depth ts n) {before : List Token} (h : before <+: ts)
    (stack : List Token) : stack <:+ before.foldl openAfter stack := by
  induction d generalizing before stack with
  | @integer _ t _ kind | @name _ t kind =>
    rcases List.prefix_cons_iff.1 h with rfl | ⟨more, rfl, hmore⟩
    · exact List.suffix_rfl
    · have hplain : t.IsPlain := Token.isPlain_of_kind (by rw [kind]; decide)
      have hstack : [t].foldl openAfter stack = stack := hplain.openAfter_eq stack
      rw [List.prefix_nil.1 hmore]
      exact ⟨[], hstack.symm⟩
  | @group _ o ts c _ room opening inner closing ih =>
    rcases List.prefix_cons_iff.1 h with rfl | ⟨more, rfl, hmore⟩
    · exact List.suffix_rfl
    · rcases List.prefix_concat_iff.1 hmore with rfl | hmore
      · exact ⟨[], ((Derives.group room opening inner closing).foldl_openAfter stack).symm⟩
      · rw [List.foldl_cons, openAfter_opening opening]
        exact (List.suffix_cons o stack).trans (ih hmore _)
  | product left _ spelling _ _ ihl ihr =>
    exact suffix_openAfter_append stack left (BinOp.symbol_of_multiplicative? _ _ spelling) h
      (fun hbefore => ihl hbefore stack) fun more hmore => ihr hmore stack
  | sum left _ spelling _ _ ihl ihr =>
    exact suffix_openAfter_append stack left (BinOp.symbol_of_additive? _ _ spelling) h
      (fun hbefore => ihl hbefore stack) fun more hmore => ihr hmore stack
  | factor _ ih | term _ ih => exact ih h stack

theorem Statements.foldl_openAfter {body : List Node} (h : Statements ts body) (stack : List Token) :
    ts.foldl openAfter stack = stack :=
  h.foldl_eq (fun stack _ _ h => h.openAfter_eq stack) openAfter_openAfter stack

/-- What comes before a list of statements leaves no parenthesis open. -/
theorem Statements.openParentheses_append {body : List Node} (h : Statements ts body) (us : List Token) :
    openParentheses (ts ++ us) = openParentheses us := by
  rw [ExprLang.openParentheses_append, openParentheses, h.foldl_openAfter, openParentheses]

end

end Grammar

end ExprLang
