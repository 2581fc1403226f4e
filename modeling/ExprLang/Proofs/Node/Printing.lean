import ExprLang.Node.Text
import ExprLang.Proofs.Lexeme.Boundary
import ExprLang.Token.Basic

/-!
# The lexemes of printed trees

A tree that could come from a text is cut, once printed, at the places where the printer put its pieces together.

* `isName`, `Node.isPlain`, `Node.isWritable` : the trees that a text can stand for;
* `Node.nesting` : the most operations on a path from the root;
* `Node.pieces` : what the printer puts together;
* `Node.lexemes_text_append`, `Node.lexemes_program` : the printed text falls apart into its pieces.
-/

namespace ExprLang

open Lexeme (isWordStart isWordPart isOperatorPart textOf)
open Text (isGap)

/-- Whether the text is a name: a letter or underscore with letters, digits and underscores after it, and no keyword. -/
def isName (x : String) : Bool :=
  match x.toList with
  | [] => false
  | c :: cs => isWordStart c && cs.all isWordPart && !isReserved x

namespace Node

/-- Whether the node is an expression of names and integers that are not below zero. -/
def isPlain : Node → Bool
  | integer i => decide (0 ≤ i)
  | var x => isName x
  | binary _ l r => l.isPlain && r.isPlain
  | assign _ _ => false

/-- Whether the node is such an expression, or the assignment of one to a name. -/
def isWritable : Node → Bool
  | assign x v => isName x && v.isPlain
  | n => n.isPlain

theorem isWritable_of_isPlain (n : Node) (h : n.isPlain = true) : n.isWritable = true := by
  cases n with
  | assign => cases h
  | integer | var | binary => exact h

/-- The most operations on a path from the root to a leaf. -/
def nesting : Node → Nat
  | integer _ | var _ => 0
  | binary _ l r => max l.nesting r.nesting + 1
  | assign _ v => v.nesting

def spaced (symbol : List Char) : List Lexeme := [⟨.gap, [' ']⟩, ⟨.operators, symbol⟩, ⟨.gap, [' ']⟩]

def pieces : Node → List Lexeme
  | integer i => [⟨.number, (Numeral.ofInt64 i).toList⟩]
  | var x => [⟨.word, x.toList⟩]
  | binary op l r =>
    ⟨.opening, ['(']⟩ :: (l.pieces ++ (spaced op.symbol.toList ++ (r.pieces ++ [⟨.closing, [')']⟩])))
  | assign x v => ⟨.word, x.toList⟩ :: (spaced ['='] ++ v.pieces)

theorem textOf_pieces (n : Node) : textOf n.pieces = n.text.toList := by
  induction n with
  | integer i => simp [pieces, text]
  | var x => simp [pieces, text]
  | binary op l r ihl ihr => simp [pieces, text, spaced, Lexeme.textOf_append, ihl, ihr]
  | assign x v ih => simp [pieces, text, spaced, ih]

/-! ## Single pieces -/

/-- Whether what follows an operand ends it: a space, a closing parenthesis, a newline, or nothing at all. -/
def Ends (rest : List Char) : Prop := ∀ c ∈ rest.head?, c = ' ' ∨ c = ')' ∨ c = '\n'

theorem Ends.stops {rest : List Char} (h : Ends rest) (p : Char → Bool)
    (hp : p ' ' = false ∧ p ')' = false ∧ p '\n' = false) : ∀ c ∈ rest.head?, p c = false := by
  intro c hc
  rcases h c hc with rfl | rfl | rfl
  · exact hp.1
  · exact hp.2.1
  · exact hp.2.2

theorem lexemes_name (x : String) (rest : List Char) (hx : isName x = true) (hrest : Ends rest) :
    lexemes (x.toList ++ rest) = ⟨.word, x.toList⟩ :: lexemes rest := by
  unfold isName at hx
  split at hx
  · cases hx
  · next c cs hxs =>
    simp only [Bool.and_eq_true, List.all_eq_true] at hx
    have hstop := hrest.stops isWordPart (by decide)
    obtain ⟨htake, hdrop⟩ := Lexeme.takeWhile_and_dropWhile_append_iff.2 ⟨hx.1.2, hstop⟩
    rw [hxs, List.cons_append, lexemes_cons, Lexeme.ofChar_of_isWordStart c hx.1.1, Lexeme.Shape.extent, htake, hdrop]

theorem toList_ofInt64 (i : Int64) (hi : 0 ≤ i) : (Numeral.ofInt64 i).toList = Nat.toDigits 10 i.toInt.toNat := by
  have h : 0 ≤ i.toInt := Int64.le_iff_toInt_le.1 hi
  rw [Numeral.ofInt64, Int.repr_eq_if, if_pos h, Nat.repr_eq_ofList_toDigits, String.toList_ofList]

theorem isDigit_of_mem_ofInt64 (i : Int64) (hi : 0 ≤ i) : ∀ c ∈ (Numeral.ofInt64 i).toList, c.isDigit = true := by
  intro c hc
  rw [toList_ofInt64 i hi] at hc
  exact Nat.isDigit_of_mem_toDigits (by decide) (by decide) hc

theorem lexemes_numeral (i : Int64) (rest : List Char) (hi : 0 ≤ i) (hrest : Ends rest) :
    lexemes ((Numeral.ofInt64 i).toList ++ rest) = ⟨.number, (Numeral.ofInt64 i).toList⟩ :: lexemes rest := by
  have hne : (Numeral.ofInt64 i).toList ≠ [] := by
    rw [toList_ofInt64 i hi]
    exact Nat.toDigits_ne_nil
  have hpoint : ∀ e, rest.take 2 = ['.', e] → e.isDigit = false := by
    intro e he
    cases rest with
    | nil => cases he
    | cons c rest =>
      obtain rfl : c = '.' := (List.cons.inj he).1
      rcases hrest '.' rfl with h | h | h <;> cases h
  exact Lexeme.lexemes_of_fits _ rest
    (Lexeme.fits_of_digits hne (isDigit_of_mem_ofInt64 i hi) (hrest.stops Char.isDigit (by decide)) hpoint)

theorem lexemes_opening (rest : List Char) : lexemes ('(' :: rest) = ⟨.opening, ['(']⟩ :: lexemes rest := by
  rw [lexemes_cons, show Lexeme.Shape.ofChar '(' = .opening by decide]
  rfl

theorem lexemes_closing (rest : List Char) : lexemes (')' :: rest) = ⟨.closing, [')']⟩ :: lexemes rest := by
  rw [lexemes_cons, show Lexeme.Shape.ofChar ')' = .closing by decide]
  rfl

theorem lexemes_newline (rest : List Char) : lexemes ('\n' :: rest) = ⟨.newline, ['\n']⟩ :: lexemes rest := by
  rw [lexemes_cons, show Lexeme.Shape.ofChar '\n' = .newline by decide]
  rfl

theorem lexemes_space (rest : List Char) (hrest : ∀ c ∈ rest.head?, isGap c = false) :
    lexemes (' ' :: rest) = ⟨.gap, [' ']⟩ :: lexemes rest := by
  rw [lexemes_cons, show Lexeme.Shape.ofChar ' ' = .gap by decide, Lexeme.Shape.extent]
  cases rest with
  | nil => rfl
  | cons c rest =>
    have hc : ¬ isGap c = true := by rw [hrest c rfl]; exact Bool.false_ne_true
    rw [List.takeWhile_cons_of_neg hc, List.dropWhile_cons_of_neg hc]

theorem lexemes_spaced (symbol : Char) (rest : List Char) (hs : Lexeme.Shape.ofChar symbol = .operators)
    (hrest : ∀ c ∈ rest.head?, isGap c = false) :
    lexemes (' ' :: symbol :: ' ' :: rest) = spaced [symbol] ++ lexemes rest := by
  have hgap : isGap symbol = false := by
    rw [Bool.eq_false_iff, Ne, ← Lexeme.ofChar_eq_gap_iff, hs]
    decide
  have hop : ¬ isOperatorPart ' ' = true := by decide
  rw [lexemes_space _ (by rintro c ⟨⟩; exact hgap), lexemes_cons, hs, Lexeme.Shape.extent,
    List.takeWhile_cons_of_neg hop, List.dropWhile_cons_of_neg hop, lexemes_space _ hrest]
  rfl

/-! ## Whole trees -/

theorem exists_text_eq_cons (n : Node) (h : n.isPlain = true) :
    ∃ c cs, n.text.toList = c :: cs ∧ isGap c = false := by
  cases n with
  | integer i =>
    have hi : 0 ≤ i := of_decide_eq_true h
    cases hds : (Numeral.ofInt64 i).toList with
    | nil =>
      rw [toList_ofInt64 i hi] at hds
      exact absurd hds Nat.toDigits_ne_nil
    | cons d ds =>
      have hd := (Lexeme.isDigit_iff_toNat d).1 (isDigit_of_mem_ofInt64 i hi d (by rw [hds]; exact List.mem_cons_self))
      exact ⟨d, ds, hds, Lexeme.isGap_of_visible d (by omega) (by omega)⟩
  | var x =>
    unfold isPlain isName at h
    split at h
    · cases h
    · next c cs hxs =>
      simp only [Bool.and_eq_true] at h
      have hc := (Lexeme.isWordStart_iff_toNat c).1 h.1.1
      exact ⟨c, cs, hxs, Lexeme.isGap_of_visible c (by omega) (by omega)⟩
  | binary op l r =>
    refine ⟨'(', (l.text ++ " " ++ op.symbol ++ " " ++ r.text ++ ")").toList, ?_, by decide⟩
    simp [text]
  | assign x v => cases h

theorem isGap_head_text (n : Node) (h : n.isPlain = true) (rest : List Char) :
    ∀ c ∈ (n.text.toList ++ rest).head?, isGap c = false := by
  obtain ⟨c, cs, hcs, hc⟩ := n.exists_text_eq_cons h
  intro d hd
  rw [hcs] at hd
  obtain rfl : c = d := by simpa using hd
  exact hc

theorem ofChar_symbol (op : BinOp) : ∃ c, op.symbol.toList = [c] ∧ Lexeme.Shape.ofChar c = .operators := by
  cases op
  · exact ⟨'+', by decide, by decide⟩
  · exact ⟨'-', by decide, by decide⟩
  · exact ⟨'*', by decide, by decide⟩
  · exact ⟨'/', by decide, by decide⟩

/-- A printed expression falls apart into its pieces. -/
theorem lexemes_text_of_isPlain (n : Node) (h : n.isPlain = true) (rest : List Char) (hrest : Ends rest) :
    lexemes (n.text.toList ++ rest) = n.pieces ++ lexemes rest := by
  induction n generalizing rest with
  | integer i => exact lexemes_numeral i rest (of_decide_eq_true h) hrest
  | var x => exact lexemes_name x rest h hrest
  | binary op l r ihl ihr =>
    obtain ⟨hl, hr⟩ := (Bool.and_eq_true_iff).1 h
    obtain ⟨c, hc, hshape⟩ := ofChar_symbol op
    have htext : (binary op l r).text.toList ++ rest =
        '(' :: (l.text.toList ++ ' ' :: c :: ' ' :: (r.text.toList ++ ')' :: rest)) := by
      simp [text, hc]
    rw [htext, lexemes_opening, ihl hl _ (by rintro d ⟨⟩; exact Or.inl rfl),
      lexemes_spaced c _ hshape (r.isGap_head_text hr _), ihr hr _ (by rintro d ⟨⟩; exact Or.inr (Or.inl rfl)),
      lexemes_closing, pieces, hc]
    simp [List.append_assoc]
  | assign x v => cases h

theorem lexemes_text_append (n : Node) (h : n.isWritable = true) (rest : List Char) (hrest : Ends rest) :
    lexemes (n.text.toList ++ rest) = n.pieces ++ lexemes rest := by
  cases n with
  | assign x v =>
    obtain ⟨hx, hv⟩ := (Bool.and_eq_true_iff).1 h
    have htext : (assign x v).text.toList ++ rest = x.toList ++ ' ' :: '=' :: ' ' :: (v.text.toList ++ rest) := by
      simp [text]
    rw [htext, lexemes_name x _ hx (by rintro d ⟨⟩; exact Or.inl rfl),
      lexemes_spaced '=' _ (by decide) (v.isGap_head_text hv rest), v.lexemes_text_of_isPlain hv rest hrest, pieces]
    rfl
  | integer | var | binary => exact lexemes_text_of_isPlain _ h rest hrest

def lines : List Node → List Lexeme
  | [] => []
  | [n] => n.pieces
  | n :: m :: ns => n.pieces ++ ⟨.newline, ['\n']⟩ :: lines (m :: ns)

/-- Printed statements, each on a line of its own, fall apart into their pieces. -/
theorem lexemes_program (body : List Node) (h : ∀ n ∈ body, n.isWritable = true) :
    lexemes ("\n".intercalate (body.map text)).toList = lines body := by
  induction body with
  | nil => exact lexemes_nil
  | cons n body ih =>
    obtain ⟨hn, hbody⟩ := List.forall_mem_cons.1 h
    cases body with
    | nil =>
      have hlast := n.lexemes_text_append hn [] (by rintro c ⟨⟩)
      rw [List.append_nil, lexemes_nil, List.append_nil] at hlast
      rw [List.map_singleton, String.intercalate_singleton, hlast, lines]
    | cons m ms =>
      have htext : ("\n".intercalate ((n :: m :: ms).map text)).toList =
          n.text.toList ++ '\n' :: ("\n".intercalate ((m :: ms).map text)).toList := by
        rw [List.map_cons, List.map_cons, String.intercalate_cons_cons]
        simp
      rw [htext, n.lexemes_text_append hn _ (by rintro c ⟨⟩; exact Or.inr (Or.inr rfl)), lexemes_newline, ih hbody,
        lines]

end Node

end ExprLang
