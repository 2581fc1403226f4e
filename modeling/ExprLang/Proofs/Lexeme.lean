import Mathlib.Data.List.TakeWhile
import ExprLang.Lexeme

/-!
# The cut into lexemes

* `Lexeme.takeWhile_and_dropWhile_append_iff` : where a run of characters of one class ends;
* `Lexeme.Shape.starts` : the class of characters that start a shape, `starts_ofChar`;
* `Lexeme.ofChar_of_isWordStart`, `Lexeme.ofChar_of_isDigit` : letters start words, and digits start numbers;
* `Lexeme.Fits` : a lexeme that ends where the characters after it begin;
* `fits_of_lexemes` : all that is cut off fits;
* `Lexeme.textOf`, `lexemes_of_append` : what is left after some of the lexemes is cut as if it stood alone;
* `Lexeme.notMem_newline_of_fits` : only newlines and strings hold newlines.
-/

namespace ExprLang

namespace Lexeme

open Text (isGap isBlank)

/-! ## Runs of characters -/

section

variable {α : Type} {p : α → Bool} {xs ys : List α}

/-- A run at the front of a text does not go on into characters that do not belong to it. -/
theorem takeWhile_and_dropWhile_append (xs : List α) (h : ∀ y ∈ ys.head?, p y = false) :
    (xs ++ ys).takeWhile p = xs.takeWhile p ∧ (xs ++ ys).dropWhile p = xs.dropWhile p ++ ys := by
  induction xs with
  | nil =>
    cases ys with
    | nil => exact ⟨rfl, rfl⟩
    | cons y ys =>
      have hy : ¬ p y = true := by rw [h y rfl]; exact Bool.false_ne_true
      exact ⟨List.takeWhile_cons_of_neg hy, List.dropWhile_cons_of_neg hy⟩
  | cons x xs ih =>
    by_cases hx : p x = true
    · simpa only [List.cons_append, List.takeWhile_cons_of_pos hx, List.dropWhile_cons_of_pos hx, List.cons.injEq,
        true_and] using ih
    · simp only [List.cons_append, List.takeWhile_cons_of_neg hx, List.dropWhile_cons_of_neg hx, true_and]

theorem notMem_takeWhile {x : α} (h : p x = false) : x ∉ xs.takeWhile p := by
  intro hmem
  have := List.all_eq_true.1 List.all_takeWhile _ hmem
  rw [h] at this
  cases this

/-- What is left after a run begins with a character that does not belong to it. -/
theorem stops_dropWhile : ∀ x ∈ (xs.dropWhile p).head?, p x = false := by
  intro x hx
  have := List.head?_dropWhile_not p xs
  rw [Option.mem_def.1 hx] at this
  simpa using this

/-- A text is cut after its longest run at the front exactly if the run stops there. -/
theorem takeWhile_and_dropWhile_append_iff : (xs ++ ys).takeWhile p = xs ∧ (xs ++ ys).dropWhile p = ys ↔
    (∀ x ∈ xs, p x = true) ∧ ∀ y ∈ ys.head?, p y = false := by
  constructor
  · rintro ⟨htake, hdrop⟩
    constructor
    · rw [← htake]
      exact List.all_eq_true.1 List.all_takeWhile
    · rw [← hdrop]
      exact stops_dropWhile
  · rintro ⟨hxs, hys⟩
    obtain ⟨htake, hdrop⟩ := takeWhile_and_dropWhile_append xs hys
    rw [htake, hdrop, List.takeWhile_eq_self_iff.2 hxs, List.dropWhile_eq_nil_iff.2 hxs]
    exact ⟨rfl, rfl⟩

theorem bne_of_notMem {d : Char} {cs : List Char} (h : d ∉ cs) : ∀ c ∈ cs, (c != d) = true :=
  fun _ hc => bne_iff_ne.2 fun heq => h (heq ▸ hc)

end

/-! ## Classes of characters -/

theorem isDigit_iff_toNat (c : Char) : c.isDigit = true ↔ 48 ≤ c.toNat ∧ c.toNat ≤ 57 := by
  simp [Char.isDigit, UInt32.le_iff_toNat_le]

theorem isWordStart_iff_toNat (c : Char) : isWordStart c = true ↔
    (65 ≤ c.toNat ∧ c.toNat ≤ 90) ∨ (97 ≤ c.toNat ∧ c.toNat ≤ 122) ∨ c.toNat = 95 := by
  have hunderscore : c = '_' ↔ c.toNat = 95 := Char.toNat_inj.symm
  have hupper : c.isUpper = decide ('A'.val ≤ c.val ∧ c.val ≤ 'Z'.val) := rfl
  have hlower : c.isLower = (decide ('a'.val ≤ c.val) && decide (c.val ≤ 'z'.val)) := rfl
  have halpha : c.isAlpha = (c.isUpper || c.isLower) := rfl
  simp [isWordStart, halpha, hupper, hlower, hunderscore, UInt32.le_iff_toNat_le, or_assoc]

/-- A word goes on with what it can start with, and with digits. -/
theorem isWordPart_eq (c : Char) : isWordPart c = (isWordStart c || c.isDigit) := by
  rw [isWordPart, isWordStart, Char.isAlphanum, Bool.or_right_comm]

theorem isBlank_of_visible (c : Char) (low : 32 < c.toNat) (high : c.toNat < 127) : isBlank c = false := by
  rw [Bool.eq_false_iff]
  intro h
  simp only [isBlank, Text.inRanges, Text.blankRanges, List.any_eq_true, Bool.and_eq_true, decide_eq_true_eq] at h
  obtain ⟨r, hr, hle, hge⟩ := h
  simp only [List.mem_cons, List.not_mem_nil, or_false] at hr
  rcases hr with rfl | rfl | rfl | rfl | rfl | rfl | rfl | rfl | rfl | rfl <;> simp only at hle hge <;> omega

theorem isGap_of_visible (c : Char) (low : 32 < c.toNat) (high : c.toNat < 127) : isGap c = false := by
  rw [isGap, isBlank_of_visible c low high, Bool.false_and]

def Shape.starts : Shape → Char → Bool
  | .gap, c => isGap c
  | .comment, c => c == '#'
  | .newline, c => c == '\n'
  | .word, c => isWordStart c
  | .number, c => c.isDigit
  | .string, c => c == '"'
  | .operators, c => isOperatorPart c
  | .opening, c => isOpening c
  | .closing, c => isClosing c
  | .single, c => !isGap c && c != '\n' && c != '#'

theorem starts_ofChar (c : Char) : (Shape.ofChar c).starts c = true := by
  unfold Shape.ofChar
  repeat' split
  all_goals simp_all [Shape.starts]

theorem ofChar_of_isWordStart (c : Char) (h : isWordStart c = true) : Shape.ofChar c = .word := by
  have hn := (isWordStart_iff_toNat c).1 h
  have hash : (c == '#') = false := by rw [beq_eq_false_iff_ne]; rintro rfl; revert h; decide
  have newline : (c == '\n') = false := by rw [beq_eq_false_iff_ne]; rintro rfl; revert h; decide
  have gap : isGap c = false := isGap_of_visible c (by omega) (by omega)
  simp only [Shape.ofChar, gap, hash, newline, h, Bool.false_eq_true, if_false, if_true]

theorem ofChar_of_isDigit (c : Char) (h : c.isDigit = true) : Shape.ofChar c = .number := by
  have hn := (isDigit_iff_toNat c).1 h
  have hash : (c == '#') = false := by rw [beq_eq_false_iff_ne]; rintro rfl; revert h; decide
  have newline : (c == '\n') = false := by rw [beq_eq_false_iff_ne]; rintro rfl; revert h; decide
  have gap : isGap c = false := isGap_of_visible c (by omega) (by omega)
  have word : isWordStart c = false := by
    rw [Bool.eq_false_iff, ne_eq, isWordStart_iff_toNat]
    omega
  simp only [Shape.ofChar, gap, hash, newline, word, h, Bool.false_eq_true, if_false, if_true]

theorem ofChar_of_quote : Shape.ofChar '"' = .string := by decide

theorem ofChar_of_isOperatorPart (c : Char) (h : isOperatorPart c = true) : Shape.ofChar c = .operators := by
  have hmem : c ∈ operatorChars := by simpa [isOperatorPart] using h
  simp only [operatorChars, List.mem_cons, List.not_mem_nil, or_false] at hmem
  rcases hmem with rfl | rfl | rfl | rfl | rfl | rfl | rfl | rfl | rfl | rfl | rfl <;> decide

/-- A character that starts no run, no string and no trivia is a bracket or a single character. -/
theorem ofChar_alone_iff (c : Char) : Shape.ofChar c = .opening ∨ Shape.ofChar c = .closing ∨ Shape.ofChar c = .single ↔
    isWordStart c = false ∧ c.isDigit = false ∧ c ≠ '"' ∧ isOperatorPart c = false ∧ isBlank c = false ∧ c ≠ '#' := by
  have hblank : isBlank c = false ↔ isGap c = false ∧ c ≠ '\n' := by
    rw [isGap]
    by_cases hc : c = '\n'
    · subst hc
      decide
    · simp [hc]
  rw [hblank]
  unfold Shape.ofChar
  split_ifs <;> simp_all

/-! ## Lexemes that fit -/

/-- Whether the lexeme begins as its shape says, and ends where the characters `rest` begin. -/
def Fits (l : Lexeme) (rest : List Char) : Prop :=
  ∃ c cs, l.text = c :: cs ∧ l.shape = .ofChar c ∧ l.shape.extent (cs ++ rest) = (cs, rest)

def textOf (ls : List Lexeme) : List Char := ls.flatMap text

@[simp] theorem textOf_nil : textOf [] = [] := rfl

@[simp] theorem textOf_cons (l : Lexeme) (ls : List Lexeme) : textOf (l :: ls) = l.text ++ textOf ls :=
  List.flatMap_cons

theorem textOf_append (ls ms : List Lexeme) : textOf (ls ++ ms) = textOf ls ++ textOf ms :=
  List.flatMap_append

theorem mem_splitNumber (cs : List Char) (c : Char) (h : c ∈ (splitNumber cs).1) : c.isDigit = true ∨ c = '.' := by
  have hdigits : ∀ ds : List Char, ∀ d ∈ ds.takeWhile Char.isDigit, d.isDigit = true :=
    fun ds => List.all_eq_true.1 List.all_takeWhile
  unfold splitNumber at h
  split at h
  · next d r _ =>
    split at h
    · next hd =>
      rcases List.mem_append.1 h with h | h
      · exact Or.inl (hdigits cs c h)
      · rcases List.mem_cons.1 h with rfl | h
        · exact Or.inr rfl
        · rcases List.mem_cons.1 h with rfl | h
          · exact Or.inl hd
          · exact Or.inl (hdigits r c h)
    · exact Or.inl (hdigits cs c h)
  · exact Or.inl (hdigits cs c h)

theorem notMem_newline_extent (s : Shape) (cs : List Char) (h : s ≠ .string) : '\n' ∉ (s.extent cs).1 := by
  cases s with
  | gap => exact notMem_takeWhile Text.isGap_newline
  | comment => exact notMem_takeWhile rfl
  | word => exact notMem_takeWhile (by decide)
  | operators => exact notMem_takeWhile (by decide)
  | number =>
    intro hmem
    rcases mem_splitNumber cs _ hmem with h | h <;> revert h <;> decide
  | string => exact absurd rfl h
  | newline | opening | closing | single => exact List.not_mem_nil

theorem ofChar_eq_newline_iff (c : Char) : Shape.ofChar c = .newline ↔ c = '\n' := by
  constructor
  · intro h
    have := starts_ofChar c
    rw [h] at this
    exact eq_of_beq this
  · rintro rfl
    decide

theorem ofChar_eq_comment_iff (c : Char) : Shape.ofChar c = .comment ↔ c = '#' := by
  constructor
  · intro h
    have := starts_ofChar c
    rw [h] at this
    exact eq_of_beq this
  · rintro rfl
    decide

theorem ofChar_eq_gap_iff (c : Char) : Shape.ofChar c = .gap ↔ isGap c = true := by
  constructor
  · intro h
    have := starts_ofChar c
    rwa [h] at this
  · intro h
    rw [Shape.ofChar, if_pos h]

theorem notMem_newline_of_fits (l : Lexeme) (rest : List Char) (fits : l.Fits rest) (newline : l.shape ≠ .newline)
    (string : l.shape ≠ .string) : '\n' ∉ l.text := by
  obtain ⟨c, cs, ht, hs, he⟩ := fits
  have hcs := notMem_newline_extent l.shape (cs ++ rest) string
  rw [he] at hcs
  rw [ht, List.mem_cons, not_or]
  refine ⟨fun hc => newline ?_, hcs⟩
  rw [hs, ofChar_eq_newline_iff, hc]

theorem shape_of_text (l : Lexeme) (rest : List Char) (fits : l.Fits rest) (d : Char) (h : l.text = [d]) :
    l.shape = .ofChar d := by
  obtain ⟨c, cs, ht, hs, -⟩ := fits
  rw [ht, List.cons.injEq] at h
  rw [hs, h.1]

theorem exists_text_eq_singleton (l : Lexeme) (rest : List Char) (fits : l.Fits rest)
    (h : ∀ cs, l.shape.extent cs = ([], cs)) : ∃ c, l.text = [c] ∧ l.shape.starts c = true := by
  obtain ⟨c, cs, ht, hs, he⟩ := fits
  rw [h] at he
  refine ⟨c, ?_, ?_⟩
  · rw [ht, ← (Prod.mk.inj he).1]
  · rw [hs]
    exact starts_ofChar c

theorem text_of_newline (l : Lexeme) (rest : List Char) (fits : l.Fits rest) (h : l.shape = .newline) :
    l.text = ['\n'] := by
  obtain ⟨c, hc, hstarts⟩ := exists_text_eq_singleton l rest fits (by rw [h]; exact fun _ => rfl)
  rw [h] at hstarts
  rw [hc, eq_of_beq hstarts]

end Lexeme

open Lexeme (Fits textOf)

/-- What is cut off fits. -/
theorem fits_of_lexemes (source : List Char) (l : Lexeme) (ls : List Lexeme) (h : lexemes source = l :: ls) :
    ∃ rest, source = l.text ++ rest ∧ l.Fits rest ∧ ls = lexemes rest := by
  cases source with
  | nil => rw [lexemes_nil] at h; cases h
  | cons c cs =>
    rw [lexemes_cons, List.cons.injEq] at h
    obtain ⟨rfl, rfl⟩ := h
    have happ := Lexeme.extent_append (.ofChar c) cs
    exact ⟨_, by rw [List.cons_append, happ], ⟨c, _, rfl, rfl, by rw [happ]⟩, rfl⟩

/-- What is left after some of the lexemes is cut as if it stood alone. -/
theorem lexemes_of_append (source : List Char) (ls ms : List Lexeme) (h : lexemes source = ls ++ ms) :
    source = textOf ls ++ textOf ms ∧ lexemes (textOf ms) = ms := by
  induction ls generalizing source with
  | nil =>
    rw [List.nil_append] at h
    have htext : textOf ms = source := by rw [← h]; exact flatMap_text_lexemes source
    exact ⟨htext.symm, by rw [htext, h]⟩
  | cons l ls ih =>
    obtain ⟨rest, rfl, -, hrest⟩ := fits_of_lexemes source l (ls ++ ms) h
    obtain ⟨hr, hms⟩ := ih rest hrest.symm
    exact ⟨by rw [hr, Lexeme.textOf_cons, List.append_assoc], hms⟩

/-- Leading white space is one lexeme. -/
theorem lexemes_dropWhile_gap (cs : List Char) :
    (lexemes cs).dropWhile (·.shape == .gap) = lexemes (cs.dropWhile Text.isGap) := by
  cases cs with
  | nil => rw [List.dropWhile_nil, lexemes_nil, List.dropWhile_nil]
  | cons c cs =>
    by_cases hc : Text.isGap c = true
    · have hgap := (Lexeme.ofChar_eq_gap_iff c).2 hc
      rw [lexemes_cons, hgap, List.dropWhile_cons_of_pos rfl, List.dropWhile_cons_of_pos hc]
      -- the run of white space is as long as it can be, so no second one follows
      cases hd : cs.dropWhile Text.isGap with
      | nil => rw [Lexeme.Shape.extent, hd, lexemes_nil]; rfl
      | cons d ds =>
        have hnot : Text.isGap d = false := Lexeme.stops_dropWhile d (by rw [hd]; rfl)
        have hd' : Lexeme.Shape.ofChar d ≠ .gap := by
          rw [Ne, Lexeme.ofChar_eq_gap_iff, hnot]
          exact Bool.false_ne_true
        rw [Lexeme.Shape.extent, hd, lexemes_cons, List.dropWhile_cons_of_neg]
        simpa using hd'
    · have hgap : Lexeme.Shape.ofChar c ≠ .gap := fun h => hc ((Lexeme.ofChar_eq_gap_iff c).1 h)
      rw [List.dropWhile_cons_of_neg hc, lexemes_cons, List.dropWhile_cons_of_neg]
      simpa using hgap

end ExprLang
