import ExprLang.Proofs.Lexeme

/-!
# Where a lexeme ends

A lexeme ends before a text for reasons that the lexeme and the front of that text show. So what comes later may change.

* `Lexeme.Shape.part` : the characters that a run of a shape goes on with;
* `Lexeme.StopsBefore` : what the front of a text must be like for a lexeme to end before it;
* `Fits.stopsBefore`, `Fits.of_stopsBefore` : a lexeme that fits one text fits every text that it stops before;
* `stopsBefore_trivia`, `stopsBefore_newline` : what is not trivia itself stops before trivia, unless a quote is missing;
* `lexemes_textOf_append` : some lexemes of a text are cut alike before another text.
-/

namespace ExprLang

namespace Lexeme

open Text (isBlank isGap)

/-- Whether a run of the shape goes on with the character. Brackets, newlines and single characters are no runs, and a
string ends by its last character. -/
def Shape.part : Shape → Char → Bool
  | .gap, c => isGap c
  | .comment, c => c != '\n'
  | .word, c => isWordPart c
  | .number, c => c.isDigit
  | .operators, c => isOperatorPart c
  | .newline, _ | .string, _ | .opening, _ | .closing, _ | .single, _ => false

/-- Whether the lexeme ends if the text `rest` follows. A number without a point goes on with a point and a digit, and a
string that is not closed goes on with everything. -/
structure StopsBefore (l : Lexeme) (rest : List Char) : Prop where
  run : ∀ c ∈ rest.head?, l.shape.part c = false
  point : l.shape = .number → '.' ∉ l.text → ∀ d, rest.take 2 = ['.', d] → d.isDigit = false
  quote : l.shape = .string → '"' ∉ l.text.tail → rest = []

/-! ## Runs -/

section

variable {p : Char → Bool} {cs rest rest' : List Char}

theorem cut_of_run (run : ∀ c ∈ cs, p c = true) (stops : ∀ c ∈ rest.head?, p c = false) :
    ((cs ++ rest).takeWhile p, (cs ++ rest).dropWhile p) = (cs, rest) := by
  obtain ⟨htake, hdrop⟩ := takeWhile_and_dropWhile_append_iff.2 ⟨run, stops⟩
  rw [htake, hdrop]

theorem cut_of_stops (h : ((cs ++ rest).takeWhile p, (cs ++ rest).dropWhile p) = (cs, rest))
    (stops : ∀ c ∈ rest'.head?, p c = false) :
    ((cs ++ rest').takeWhile p, (cs ++ rest').dropWhile p) = (cs, rest') :=
  cut_of_run (takeWhile_and_dropWhile_append_iff.1 (Prod.mk.inj h)).1 stops

theorem stops_of_cut (h : ((cs ++ rest).takeWhile p, (cs ++ rest).dropWhile p) = (cs, rest)) :
    ∀ c ∈ rest.head?, p c = false :=
  (takeWhile_and_dropWhile_append_iff.1 (Prod.mk.inj h)).2

/-! ## Numbers -/

theorem splitNumber_of_digits (hcs : ∀ c ∈ cs, c.isDigit = true) (hrest : ∀ c ∈ rest.head?, c.isDigit = false)
    (point : ∀ d, rest.take 2 = ['.', d] → d.isDigit = false) : splitNumber (cs ++ rest) = (cs, rest) := by
  obtain ⟨htake, hdrop⟩ := takeWhile_and_dropWhile_append_iff.2 ⟨hcs, hrest⟩
  unfold splitNumber
  rw [htake, hdrop]
  split
  · next d r =>
    rw [if_neg]
    rw [point d rfl]
    exact Bool.false_ne_true
  · rfl

/-- A run of digits is a number, if neither a digit follows nor a point with a digit. -/
theorem fits_of_digits (nonempty : cs ≠ []) (hcs : ∀ c ∈ cs, c.isDigit = true)
    (hrest : ∀ c ∈ rest.head?, c.isDigit = false) (point : ∀ d, rest.take 2 = ['.', d] → d.isDigit = false) :
    Fits ⟨.number, cs⟩ rest := by
  obtain ⟨c, ds, rfl⟩ := List.exists_cons_of_ne_nil nonempty
  obtain ⟨hc, hds⟩ := List.forall_mem_cons.1 hcs
  exact ⟨c, ds, rfl, (ofChar_of_isDigit c hc).symm, splitNumber_of_digits hds hrest point⟩

theorem splitNumber_of_point {ds es : List Char} {d : Char} (hds : ∀ c ∈ ds, c.isDigit = true) (hd : d.isDigit = true)
    (hes : ∀ c ∈ es, c.isDigit = true) (hrest : ∀ c ∈ rest.head?, c.isDigit = false) :
    splitNumber (ds ++ '.' :: d :: es ++ rest) = (ds ++ '.' :: d :: es, rest) := by
  have hpoint : ∀ c ∈ ('.' :: d :: (es ++ rest)).head?, c.isDigit = false := by rintro c ⟨⟩; decide
  obtain ⟨htake, hdrop⟩ := takeWhile_and_dropWhile_append_iff.2 ⟨hds, hpoint⟩
  obtain ⟨htake', hdrop'⟩ := takeWhile_and_dropWhile_append_iff.2 ⟨hes, hrest⟩
  have happ : ds ++ '.' :: d :: es ++ rest = ds ++ '.' :: d :: (es ++ rest) := by
    rw [List.append_assoc, List.cons_append, List.cons_append]
  unfold splitNumber
  rw [happ, htake, hdrop]
  simp only [hd, if_true, htake', hdrop']

/-- A number is a run of digits, or two of them about a point. -/
theorem digits_of_splitNumber (h : splitNumber (cs ++ rest) = (cs, rest)) :
    (∀ c ∈ rest.head?, c.isDigit = false) ∧
      (((∀ c ∈ cs, c.isDigit = true) ∧ ∀ d, rest.take 2 = ['.', d] → d.isDigit = false) ∨
        ∃ ds d es, cs = ds ++ '.' :: d :: es ∧ (∀ c ∈ ds, c.isDigit = true) ∧ d.isDigit = true ∧
          ∀ c ∈ es, c.isDigit = true) := by
  have digits : ∀ xs : List Char, ∀ c ∈ xs.takeWhile Char.isDigit, c.isDigit = true :=
    fun xs => List.all_eq_true.1 List.all_takeWhile
  unfold splitNumber at h
  split at h
  · next d r hdrop =>
    split at h
    · next hd =>
      obtain ⟨hcs, hrest⟩ := Prod.mk.inj h
      exact ⟨hrest ▸ stops_dropWhile, Or.inr ⟨_, d, _, hcs.symm, digits _, hd, digits r⟩⟩
    · next hd =>
      obtain ⟨hcs, hrest⟩ := Prod.mk.inj h
      refine ⟨?_, Or.inl ⟨fun c hc => digits _ c (hcs.symm ▸ hc), ?_⟩⟩
      · rw [← hrest, ← hdrop]
        exact stops_dropWhile
      · rintro e he
        rw [← hrest, List.take_succ_cons, List.take_succ_cons, List.cons.injEq, List.cons.injEq] at he
        rw [← he.2.1]
        exact Bool.not_eq_true _ ▸ hd
  · next hpoint =>
    obtain ⟨hcs, hrest⟩ := Prod.mk.inj h
    refine ⟨hrest ▸ stops_dropWhile, Or.inl ⟨fun c hc => digits _ c (hcs.symm ▸ hc), fun d hd => ?_⟩⟩
    -- a point and one more character would have been another case
    obtain ⟨r, hr⟩ : ∃ r, rest = '.' :: d :: r := by
      match rest, hd with
      | _ :: _ :: r, hd => exact ⟨r, by simpa using hd⟩
    exact absurd (hrest.trans hr) (hpoint d r)

/-! ## Strings -/

theorem splitQuote_of_body (body rest : List Char) (h : '"' ∉ body) :
    splitQuote (body ++ '"' :: rest) = (body ++ ['"'], rest) := by
  have hbody : ∀ c ∈ body, (c != '"') = true := bne_of_notMem h
  have hquote : ∀ c ∈ ('"' :: rest).head?, (c != '"') = false := by rintro c ⟨⟩; rfl
  obtain ⟨htake, hdrop⟩ := takeWhile_and_dropWhile_append_iff.2 ⟨hbody, hquote⟩
  unfold splitQuote
  rw [htake, hdrop]

theorem splitQuote_of_notMem (h : '"' ∉ cs) : splitQuote cs = (cs, []) := by
  have hnone : cs.dropWhile (· != '"') = [] :=
    List.dropWhile_eq_nil_iff.2 (bne_of_notMem h)
  unfold splitQuote
  rw [hnone]

/-- A string ends with its second quote, or with the text. -/
theorem body_of_splitQuote (h : splitQuote (cs ++ rest) = (cs, rest)) :
    ('"' ∉ cs ∧ rest = []) ∨ ∃ body, '"' ∉ body ∧ cs = body ++ ['"'] := by
  have happ := List.takeWhile_append_dropWhile (p := (· != '"')) (l := cs ++ rest)
  unfold splitQuote at h
  split at h
  · next hnone =>
    rw [hnone, List.append_nil] at happ
    have hquote : '"' ∉ cs ++ rest := by
      rw [← happ]
      exact notMem_takeWhile rfl
    exact Or.inl ⟨fun hmem => hquote (List.mem_append_left _ hmem), (Prod.mk.inj h).2.symm⟩
  · next q r hdrop =>
    obtain rfl : q = '"' := by
      have hstop : (q != '"') = false := stops_dropWhile q (by rw [hdrop]; rfl)
      simpa using hstop
    exact Or.inr ⟨_, notMem_takeWhile rfl, (Prod.mk.inj h).1.symm⟩

end

/-! ## Lexemes -/

theorem Fits.stopsBefore {l : Lexeme} {rest : List Char} (fits : l.Fits rest) : l.StopsBefore rest := by
  obtain ⟨c, cs, ht, hs, he⟩ := fits
  refine ⟨?_, fun hnumber hpoint d hd => ?_, fun hstring hquote => ?_⟩
  · cases hshape : l.shape with
    | gap | comment | word | operators =>
      rw [hshape] at he
      exact stops_of_cut he
    | number =>
      rw [hshape] at he
      exact (digits_of_splitNumber he).1
    | newline | string | opening | closing | single => exact fun _ _ => rfl
  · rw [hnumber] at he
    rw [ht, List.mem_cons, not_or] at hpoint
    rcases (digits_of_splitNumber he).2 with ⟨-, h⟩ | ⟨ds, e, es, rfl, -⟩
    · exact h d hd
    · exact absurd (List.mem_append_right _ List.mem_cons_self) hpoint.2
  · rw [hstring] at he
    rw [ht, List.tail_cons] at hquote
    rcases body_of_splitQuote he with ⟨-, h⟩ | ⟨body, -, rfl⟩
    · exact h
    · exact absurd (List.mem_append_right _ List.mem_cons_self) hquote

/-- A lexeme that fits one text fits every text that it stops before. -/
theorem Fits.of_stopsBefore {l : Lexeme} {rest rest' : List Char} (fits : l.Fits rest) (stops : l.StopsBefore rest') :
    l.Fits rest' := by
  obtain ⟨c, cs, ht, hs, he⟩ := fits
  refine ⟨c, cs, ht, hs, ?_⟩
  have hrun := stops.run
  cases hshape : l.shape with
  | gap | comment | word | operators =>
    rw [hshape] at he hrun
    exact cut_of_stops he hrun
  | number =>
    rw [hshape] at he hrun
    rcases (digits_of_splitNumber he).2 with ⟨hcs, -⟩ | ⟨ds, d, es, rfl, hds, hd, hes⟩
    · refine splitNumber_of_digits hcs hrun (stops.point hshape ?_)
      rw [hs] at hshape
      have hc := starts_ofChar c
      rw [hshape] at hc
      intro hmem
      rw [ht] at hmem
      rcases List.mem_cons.1 hmem with rfl | hmem
      · exact absurd hc (by decide)
      · exact absurd (hcs _ hmem) (by decide)
    · exact splitNumber_of_point hds hd hes hrun
  | string =>
    rw [hshape] at he
    rcases body_of_splitQuote he with ⟨hcs, rfl⟩ | ⟨body, hbody, rfl⟩
    · have hnil := stops.quote hshape (by rw [ht, List.tail_cons]; exact hcs)
      rw [hnil]
      exact he
    · have := splitQuote_of_body body rest' hbody
      rwa [List.append_cons] at this
  | newline | opening | closing | single =>
    rw [hshape] at he
    obtain ⟨rfl, -⟩ := Prod.mk.inj he
    rfl

theorem lexemes_of_fits (l : Lexeme) (rest : List Char) (fits : l.Fits rest) :
    lexemes (l.text ++ rest) = l :: lexemes rest := by
  obtain ⟨c, cs, ht, hs, he⟩ := fits
  rw [hs] at he
  rw [ht, List.cons_append, lexemes_cons, he, ← hs, ← ht]

/-- Only the first two characters of a text decide whether a lexeme stops before it. -/
theorem StopsBefore.of_append {l : Lexeme} {c : Char} {cs rest rest' : List Char} (h : l.StopsBefore (c :: cs ++ rest))
    (digit : ∀ c ∈ rest'.head?, c.isDigit = false) : l.StopsBefore (c :: cs ++ rest') := by
  refine ⟨h.run, fun hnumber hpoint d hd => ?_, fun hstring hquote => ?_⟩
  · cases cs with
    | nil =>
      cases rest' with
      | nil => cases hd
      | cons e es =>
        rw [List.cons_append, List.nil_append, List.take_succ_cons, List.take_succ_cons, List.cons.injEq,
          List.cons.injEq] at hd
        rw [← hd.2.1]
        exact digit e rfl
    | cons e es => exact h.point hnumber hpoint d hd
  · cases h.quote hstring hquote

/-! ## White space, comments and newlines -/

/-- Neither white space nor a hash sign goes on with a token. -/
theorem part_of_trivia {c : Char} (hc : isBlank c = true ∨ c = '#') :
    isWordPart c = false ∧ c.isDigit = false ∧ isOperatorPart c = false := by
  rcases hc with hc | rfl
  · have hvisible : ¬ (32 < c.toNat ∧ c.toNat < 127) := fun ⟨low, high⟩ => by
      rw [isBlank_of_visible c low high] at hc
      cases hc
    have hstart : isWordStart c = false := by
      rw [Bool.eq_false_iff, Ne, isWordStart_iff_toNat]
      omega
    have hdigit : c.isDigit = false := by
      rw [Bool.eq_false_iff, Ne, isDigit_iff_toNat]
      omega
    refine ⟨?_, hdigit, ?_⟩
    · rw [isWordPart_eq, hstart, hdigit]
      rfl
    · rw [Bool.eq_false_iff, Ne, isOperatorPart, List.contains_iff_mem]
      intro hmem
      have hoperators : operatorChars.all (!isBlank ·) = true := by decide
      have := List.all_eq_true.1 hoperators c hmem
      rw [hc] at this
      cases this
  · decide

/-- Whether the lexeme is a string that no second quote closes. -/
def isUnclosed (l : Lexeme) : Bool := l.shape == .string && !l.text.tail.contains '"'

theorem isUnclosed_of_ne_string {l : Lexeme} (h : l.shape ≠ .string) : l.isUnclosed = false := by
  rw [isUnclosed, beq_false_of_ne h, Bool.false_and]

section

variable {l : Lexeme} (closed : l.isUnclosed = false)
include closed

theorem mem_tail_of_closed (string : l.shape = .string) : '"' ∈ l.text.tail := by
  rw [isUnclosed, string] at closed
  simpa using closed

theorem stopsBefore_trivia (gap : l.shape ≠ .gap) (comment : l.shape ≠ .comment) {c : Char}
    (hc : isBlank c = true ∨ c = '#') (rest : List Char) : l.StopsBefore (c :: rest) where
  run := by
    rintro _ ⟨⟩
    obtain ⟨hword, hdigit, hoperator⟩ := part_of_trivia hc
    cases hshape : l.shape with
    | gap => exact absurd hshape gap
    | comment => exact absurd hshape comment
    | word => exact hword
    | number => exact hdigit
    | operators => exact hoperator
    | newline | string | opening | closing | single => rfl
  point _ _ d hd := by
    obtain rfl : c = '.' := (List.cons.inj (hd.trans rfl)).1
    exact absurd hc (by decide +kernel)
  quote string notMem := absurd (mem_tail_of_closed closed string) notMem

theorem stopsBefore_newline (rest : List Char) : l.StopsBefore ('\n' :: rest) where
  run := by
    rintro c ⟨⟩
    cases l.shape <;> decide
  point _ _ d hd := by
    have hpoint : '\n' = '.' := (List.cons.inj (hd.trans rfl)).1
    exact absurd hpoint (by decide)
  quote string notMem := absurd (mem_tail_of_closed closed string) notMem

end

end Lexeme

open Lexeme (textOf)

/-- Some lexemes of a text are cut alike before another text, if the last of them stops before it. -/
theorem lexemes_textOf_append (source : List Char) (ls ms : List Lexeme) (rest : List Char)
    (h : lexemes source = ls ++ ms) (stops : ∀ l ∈ ls.getLast?, l.StopsBefore rest)
    (digit : ∀ c ∈ rest.head?, c.isDigit = false) : lexemes (textOf ls ++ rest) = ls ++ lexemes rest := by
  induction ls generalizing source with
  | nil => rfl
  | cons l ls ih =>
    obtain ⟨after, rfl, fits, hafter⟩ := fits_of_lexemes source l (ls ++ ms) h
    have hstops : l.StopsBefore (textOf ls ++ rest) := by
      cases ls with
      | nil => exact stops l rfl
      | cons m ls =>
        obtain ⟨htext, -⟩ := lexemes_of_append after (m :: ls) ms hafter.symm
        obtain ⟨_, -, ⟨c, cs, hm, -⟩, -⟩ := fits_of_lexemes after m (ls ++ ms) hafter.symm
        have hfront : textOf (m :: ls) = c :: (cs ++ textOf ls) := by
          rw [Lexeme.textOf_cons, hm, List.cons_append]
        have hl := fits.stopsBefore
        rw [htext, hfront] at hl
        rw [hfront]
        exact hl.of_append digit
    have hlater := ih after hafter.symm fun k hk => stops k (by
      cases ls with
      | nil => cases hk
      | cons m ls => exact hk)
    rw [Lexeme.textOf_cons, List.append_assoc, Lexeme.lexemes_of_fits l _ (fits.of_stopsBefore hstops), hlater]
    rfl

end ExprLang
