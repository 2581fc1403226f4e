import ExprLang.Node.Text
import ExprLang.Proofs.Lexeme
import ExprLang.Proofs.Node.Leaves

/-!
# The line of a tree

The text of a tree on one line is that of one tree only, if the names in it are words. This is more than reading the
text back could show: integers below zero, assignments in other trees and trees of any height are all told apart.

* `isWord` : the names that show where they end;
* `Node.Follows` : what can come after a tree in the text of a larger one;
* `Node.starts`, `Node.exists_text_eq_cons_of_words` : the first character of a tree tells what kind of tree it is;
* `Node.text_append_inj` : the text of a tree shows where it ends;
* `text_inj_of_words` : trees with the same text are the same.
-/

namespace ExprLang

open Lexeme (isWordStart isWordPart)

/-- Whether the text is a letter or underscore with letters, digits and underscores after it. Keywords are words. -/
def isWord (x : String) : Bool :=
  match x.toList with
  | [] => false
  | c :: cs => isWordStart c && cs.all isWordPart

theorem isWord_iff (x : String) : isWord x = true ↔
    ∃ c cs, x.toList = c :: cs ∧ isWordStart c = true ∧ ∀ d ∈ cs, isWordPart d = true := by
  unfold isWord
  cases x.toList with
  | nil => simp
  | cons c cs => simp [and_assoc]

theorem isWordPart_of_mem_of_isWord {x : String} (h : isWord x = true) : ∀ c ∈ x.toList, isWordPart c = true := by
  obtain ⟨c, cs, hx, hc, hcs⟩ := (isWord_iff x).1 h
  rw [hx, List.forall_mem_cons]
  exact ⟨by rw [Lexeme.isWordPart_eq, hc, Bool.true_or], hcs⟩

/-- Two runs of characters of one class are the same if what comes after them does not go on with that class. -/
theorem Lexeme.append_inj_of_runs {p : Char → Bool} {us vs xs ys : List Char} (hus : ∀ c ∈ us, p c = true)
    (hvs : ∀ c ∈ vs, p c = true) (hxs : ∀ c ∈ xs.head?, p c = false) (hys : ∀ c ∈ ys.head?, p c = false)
    (h : us ++ xs = vs ++ ys) : us = vs ∧ xs = ys := by
  obtain ⟨htake, hdrop⟩ := takeWhile_and_dropWhile_append_iff.2 ⟨hus, hxs⟩
  obtain ⟨htake', hdrop'⟩ := takeWhile_and_dropWhile_append_iff.2 ⟨hvs, hys⟩
  rw [h, htake'] at htake
  rw [h, hdrop'] at hdrop
  exact ⟨htake.symm, hdrop.symm⟩

namespace Node

/-! ## After a tree -/

/-- Whether the characters can come after a tree in a larger one: none at all, a closing parenthesis, or the symbol of
an operation with a space before it. -/
inductive Follows : List Char → Prop where
  | nothing : Follows []
  | closing (rest : List Char) : Follows (')' :: rest)
  | operation (op : BinOp) (rest : List Char) : Follows (' ' :: (op.symbol.toList ++ rest))

def isNumeralPart (c : Char) : Bool := c == '-' || c.isDigit

theorem Follows.stops {rest : List Char} (h : Follows rest) {p : Char → Bool} (space : p ' ' = false)
    (closing : p ')' = false) : ∀ c ∈ rest.head?, p c = false := by
  rcases h with _ | _ | _
  · rintro c ⟨⟩
  · rintro c ⟨⟩
    exact closing
  · rintro c ⟨⟩
    exact space

/-- The equals sign of an assignment is not the symbol of an operation. -/
theorem not_follows_equals (rest : List Char) : ¬ Follows (' ' :: '=' :: rest) := by
  intro h
  generalize hcs : ' ' :: '=' :: rest = cs at h
  rcases h with _ | _ | ⟨op, _⟩
  · cases hcs
  · cases hcs
  · cases op <;> simp [BinOp.symbol] at hcs

theorem symbol_append_inj {op op' : BinOp} {xs ys : List Char}
    (h : op.symbol.toList ++ xs = op'.symbol.toList ++ ys) : op = op' ∧ xs = ys := by
  cases op <;> cases op' <;> simp_all [BinOp.symbol]

theorem isNumeralPart_of_mem_ofInt64 (i : Int64) : ∀ c ∈ (Numeral.ofInt64 i).toList, isNumeralPart c = true := by
  obtain ⟨digits, -, hdigits, h | h⟩ := Numeral.exists_digits_ofInt64 i
  · rw [h]
    exact fun c hc => by rw [isNumeralPart, hdigits c hc, Bool.or_true]
  · rw [h, List.forall_mem_cons]
    exact ⟨rfl, fun c hc => by rw [isNumeralPart, hdigits c hc, Bool.or_true]⟩

theorem toList_ofInt64_ne_nil (i : Int64) : (Numeral.ofInt64 i).toList ≠ [] := by
  obtain ⟨digits, hne, -, h | h⟩ := Numeral.exists_digits_ofInt64 i
  · rwa [h]
  · rw [h]
    exact List.cons_ne_nil _ _

/-! ## The first character -/

/-- What the text of a tree can begin with. -/
inductive Front where
  | numeral
  | word
  | parenthesis

def front : Node → Front
  | integer _ => .numeral
  | var _ | assign _ _ => .word
  | binary _ _ _ => .parenthesis

def Front.ofChar (c : Char) : Front :=
  if isWordStart c then .word else if c == '(' then .parenthesis else .numeral

theorem Front.ofChar_of_isNumeralPart (c : Char) (h : isNumeralPart c = true) : Front.ofChar c = .numeral := by
  rw [isNumeralPart, Bool.or_eq_true, beq_iff_eq] at h
  rcases h with rfl | h
  · rfl
  · have hdigit := (Lexeme.isDigit_iff_toNat c).1 h
    have hword : ¬ isWordStart c = true := by
      rw [Lexeme.isWordStart_iff_toNat]
      omega
    have hparenthesis : ¬ (c == '(') = true := by
      rw [beq_iff_eq]
      rintro rfl
      cases h
    rw [Front.ofChar, if_neg hword, if_neg hparenthesis]

theorem exists_text_eq_cons_of_words (n : Node) (h : ∀ x ∈ n.names, isWord x = true) :
    ∃ c cs, n.text.toList = c :: cs ∧ Front.ofChar c = n.front := by
  cases n with
  | integer i =>
    obtain ⟨c, cs, hi⟩ := List.exists_cons_of_ne_nil (toList_ofInt64_ne_nil i)
    have hc := isNumeralPart_of_mem_ofInt64 i c (by simp [hi])
    exact ⟨c, cs, hi, Front.ofChar_of_isNumeralPart c hc⟩
  | var x =>
    obtain ⟨c, cs, hx, hc, -⟩ := (isWord_iff x).1 (h x (by simp [names]))
    exact ⟨c, cs, hx, if_pos hc⟩
  | binary op l r =>
    simp [text, front, Front.ofChar, isWordStart]
  | assign x v =>
    obtain ⟨c, cs, hx, hc, -⟩ := (isWord_iff x).1 (h x (by simp [names]))
    simp only [text, String.toList_append, hx, List.cons_append]
    exact ⟨c, _, rfl, if_pos hc⟩

/-! ## The end of a tree -/

variable {n m : Node} {xs ys : List Char}

/-- Trees that begin with the same characters are of the same kind, but for names and assignments. -/
theorem front_eq_of_text_append (hn : ∀ x ∈ n.names, isWord x = true) (hm : ∀ x ∈ m.names, isWord x = true)
    (h : n.text.toList ++ xs = m.text.toList ++ ys) : n.front = m.front := by
  obtain ⟨c, cs, hntext, hc⟩ := n.exists_text_eq_cons_of_words hn
  obtain ⟨d, ds, hmtext, hd⟩ := m.exists_text_eq_cons_of_words hm
  rw [hntext, hmtext, List.cons_append, List.cons_append, List.cons.injEq] at h
  rw [← hc, ← hd, h.1]

theorem word_append_inj {x y : String} {xs ys : List Char} (hx : isWord x = true) (hy : isWord y = true)
    (hxs : ∀ c ∈ xs.head?, isWordPart c = false) (hys : ∀ c ∈ ys.head?, isWordPart c = false)
    (h : x.toList ++ xs = y.toList ++ ys) : x = y ∧ xs = ys := by
  obtain ⟨hxy, hrest⟩ := Lexeme.append_inj_of_runs (isWordPart_of_mem_of_isWord hx) (isWordPart_of_mem_of_isWord hy)
    hxs hys h
  exact ⟨String.toList_inj.1 hxy, hrest⟩

theorem toList_text_binary (op : BinOp) (l r : Node) (xs : List Char) : (binary op l r).text.toList ++ xs =
    '(' :: (l.text.toList ++ ' ' :: (op.symbol.toList ++ ' ' :: (r.text.toList ++ ')' :: xs))) := by
  simp [text]

theorem toList_text_assign (x : String) (v : Node) (xs : List Char) : (assign x v).text.toList ++ xs =
    x.toList ++ ' ' :: '=' :: ' ' :: (v.text.toList ++ xs) := by
  simp [text]

theorem stops_equals (rest : List Char) : ∀ c ∈ (' ' :: '=' :: rest).head?, isWordPart c = false := by
  rintro c ⟨⟩
  rfl

/-- If all names are words, then the text of a tree shows where it ends in the text of a larger one. -/
theorem text_append_inj (n m : Node) (xs ys : List Char) (hn : ∀ x ∈ n.names, isWord x = true)
    (hm : ∀ x ∈ m.names, isWord x = true) (hxs : Follows xs) (hys : Follows ys)
    (h : n.text.toList ++ xs = m.text.toList ++ ys) : n = m ∧ xs = ys := by
  induction n generalizing m xs ys with
  | integer i =>
    have hfront := front_eq_of_text_append hn hm h
    cases m with
    | var | binary | assign => cases hfront
    | integer j =>
      obtain ⟨hij, hrest⟩ := Lexeme.append_inj_of_runs (isNumeralPart_of_mem_ofInt64 i) (isNumeralPart_of_mem_ofInt64 j)
        (hxs.stops rfl rfl) (hys.stops rfl rfl) h
      rw [String.toList_inj, Numeral.ofInt64_inj] at hij
      exact ⟨by rw [hij], hrest⟩
  | var x =>
    have hx := hn x (by simp [names])
    have hfront := front_eq_of_text_append hn hm h
    cases m with
    | integer | binary => cases hfront
    | var y =>
      have hy := hm y (by simp [names])
      obtain ⟨rfl, hrest⟩ := word_append_inj hx hy (hxs.stops rfl rfl) (hys.stops rfl rfl) h
      exact ⟨rfl, hrest⟩
    | assign y w =>
      have hy := hm y (by simp [names])
      rw [toList_text_assign] at h
      obtain ⟨-, rfl⟩ := word_append_inj hx hy (hxs.stops rfl rfl) (stops_equals _) h
      exact absurd hxs (not_follows_equals _)
  | binary op l r ihl ihr =>
    have hfront := front_eq_of_text_append hn hm h
    cases m with
    | integer | var | assign => cases hfront
    | binary op' l' r' =>
      rw [names, List.forall_mem_append] at hn hm
      rw [toList_text_binary, toList_text_binary, List.cons.injEq] at h
      obtain ⟨rfl, hop⟩ := ihl l' _ _ hn.1 hm.1 (.operation op _) (.operation op' _) h.2
      rw [List.cons.injEq] at hop
      obtain ⟨rfl, hr⟩ := symbol_append_inj hop.2
      rw [List.cons.injEq] at hr
      obtain ⟨rfl, hclosing⟩ := ihr r' _ _ hn.2 hm.2 (.closing _) (.closing _) hr.2
      rw [List.cons.injEq] at hclosing
      exact ⟨rfl, hclosing.2⟩
  | assign x v ih =>
    have hx := hn x (by simp [names])
    have hfront := front_eq_of_text_append hn hm h
    cases m with
    | integer | binary => cases hfront
    | var y =>
      have hy := hm y (by simp [names])
      rw [toList_text_assign] at h
      obtain ⟨-, rfl⟩ := word_append_inj hx hy (stops_equals _) (hys.stops rfl rfl) h
      exact absurd hys (not_follows_equals _)
    | assign y w =>
      rw [names, List.forall_mem_cons] at hn hm
      rw [toList_text_assign, toList_text_assign] at h
      obtain ⟨rfl, hvalue⟩ := word_append_inj hx hm.1 (stops_equals _) (stops_equals _) h
      simp only [List.cons.injEq, true_and] at hvalue
      obtain ⟨rfl, hrest⟩ := ih w _ _ hn.2 hm.2 hxs hys hvalue
      exact ⟨rfl, hrest⟩

end Node

/-- Two trees with the same text on one line are the same tree, if all names in them are words. The integers can be
below zero, the trees of any height, and assignments can stand anywhere in them. -/
theorem text_inj_of_words (n m : Node) (hn : ∀ x ∈ n.names, isWord x = true) (hm : ∀ x ∈ m.names, isWord x = true)
    (h : n.text = m.text) : n = m := by
  have hlists : n.text.toList ++ [] = m.text.toList ++ [] := by rw [h]
  exact (Node.text_append_inj n m [] [] hn hm .nothing .nothing hlists).1

/-- An assignment is an operand here, a minus sign stands before an integer and between operands, and a name is a
keyword. -/
theorem text_inj_of_words_of_signs :
    let right : Node := .assign "if" (.binary .sub (.integer (-3)) (.var "_"))
    let n : Node := .binary .sub (.assign "x" (.integer (-5))) right
    let m : Node := .binary .sub (.assign "x" (.integer (0 - 5))) right
    (∀ x ∈ n.names, isWord x = true) ∧ (∀ x ∈ m.names, isWord x = true) ∧
      n.text = "(x = -5 - if = (-3 - _))" ∧ n.text = m.text ∧ n = m := by
  intro right n m
  have hn : ∀ x ∈ n.names, isWord x = true := by decide +kernel
  have hm : ∀ x ∈ m.names, isWord x = true := by decide +kernel
  have htext : n.text = m.text := by decide +kernel
  exact ⟨hn, hm, by decide +kernel, htext, text_inj_of_words n m hn hm htext⟩

end ExprLang
