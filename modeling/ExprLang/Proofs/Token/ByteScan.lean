import ExprLang.Proofs.Text.Cursor
import ExprLang.Proofs.Text.Utf8
import ExprLang.Proofs.Token.Lines
import ExprLang.Proofs.Token.Relocation

/-!
# A scan by bytes

A scan can also go through a text with a cursor, and measure in bytes what it takes. It then depends on the cursor: a
move or a slice that ends inside a character is refused, and a scan that is refused once has no tokens. This never
happens.

* `sliceTo?`, `sliceFrom?` : the two parts of a text that is cut after a number of bytes;
* `spaceBytes`, `lastNewline?` : what a scan measures in bytes besides its lexemes;
* `ByteScan` : a scan under way, with the tokens that it has made;
* `ByteScan.measure?`, `ByteScan.take?`, `ByteScan.run?` : the front of a line, one lexeme, and all of the text;
* `ByteScan.size_lt_of_step?` : every step gets on;
* `ByteScan.measure?_eq`, `ByteScan.exists_take?_eq` : what they do, and that nothing is refused;
* `ByteScan.exists_step?_eq`, `ByteScan.run?_eq` : the tokens are those that the lexemes bring;
* `cursor_between_characters` : where a cursor can stand, and that a scan never asks for another place.
-/

namespace ExprLang

open Text (Cursor byteLength splitBytes? isGap isBlank)

/-! ## Slices -/

def sliceTo? (n : Nat) (cs : List Char) : Option (List Char) := (splitBytes? n cs).map Prod.fst

def sliceFrom? (n : Nat) (cs : List Char) : Option (List Char) := (splitBytes? n cs).map Prod.snd

def spaceBytes (cs : List Char) : Nat := ((cs.flatMap String.utf8EncodeChar).takeWhile (· == 0x20)).length

/-- The number of bytes before the last newline of a text. -/
def lastNewline? : List Char → Option Nat
  | [] => none
  | c :: cs => ((lastNewline? cs).map (c.utf8Size + ·)).or (if c = '\n' then some 0 else none)

/-- The number of characters after the last newline of a text that has one, sliced off the text. The outer `none` stands
for a slice that is refused. -/
def lastLineWidth? (cs : List Char) : Option (Option Nat) :=
  match lastNewline? cs with
  | none => some none
  | some offset => (sliceFrom? (offset + 1) cs).map fun last => some last.length

theorem sliceTo?_append (xs ys : List Char) : sliceTo? (byteLength xs) (xs ++ ys) = some xs := by
  rw [sliceTo?, Text.splitBytes?_append, Option.map_some]

theorem sliceFrom?_append (xs ys : List Char) : sliceFrom? (byteLength xs) (xs ++ ys) = some ys := by
  rw [sliceFrom?, Text.splitBytes?_append, Option.map_some]

/-- A space is a character of one byte, and no other character begins with this byte. -/
theorem eq_space_of_utf8EncodeChar {c : Char} {tail : List UInt8} (h : String.utf8EncodeChar c = 0x20 :: tail) :
    c = ' ' := by
  have hbytes : 0x20 :: tail = String.utf8EncodeChar c ++ [] := by rw [h, List.append_nil]
  exact (congrArg Prod.fst (Text.nextChar_utf8EncodeChar hbytes)).symm

theorem spaceBytes_eq (cs : List Char) : spaceBytes cs = leadingSpaces cs := by
  rw [spaceBytes, leadingSpaces]
  induction cs with
  | nil => rfl
  | cons c cs ih =>
    rw [List.flatMap_cons]
    by_cases hc : c = ' '
    · have hbytes : String.utf8EncodeChar ' ' = [0x20] := by decide
      rw [hc, hbytes, List.singleton_append, List.takeWhile_cons_of_pos rfl, List.takeWhile_cons_of_pos rfl,
        List.length_cons, ih, List.length_cons]
    · obtain ⟨b, tail, hbytes⟩ := List.exists_cons_of_ne_nil (String.utf8EncodeChar_ne_nil (c := c))
      have hb : ¬ (b == 0x20) = true := by
        intro h
        rw [eq_of_beq h] at hbytes
        exact hc (eq_space_of_utf8EncodeChar hbytes)
      rw [hbytes, List.cons_append, List.takeWhile_cons_of_neg (by exact hb),
        List.takeWhile_cons_of_neg (by simpa using hc)]
      rfl

theorem byteLength_takeWhile_space (cs : List Char) : byteLength (cs.takeWhile (· == ' ')) = leadingSpaces cs := by
  rw [leadingSpaces]
  induction cs with
  | nil => rfl
  | cons c cs ih =>
    by_cases hc : c = ' '
    · have hsize : ' '.utf8Size = 1 := by decide
      rw [hc, List.takeWhile_cons_of_pos rfl, byteLength, ih, hsize, List.length_cons, Nat.add_comm]
    · rw [List.takeWhile_cons_of_neg (by simpa using hc)]
      rfl

/-- Spaces at the front do not matter for what a line holds. -/
theorem holdsCode_dropWhile_space (cs : List Char) :
    holdsCode ((cs.dropWhile (· == ' ')).takeWhile (· != '\n')) = holdsCode (cs.takeWhile (· != '\n')) := by
  induction cs with
  | nil => rfl
  | cons c cs ih =>
    by_cases hc : c = ' '
    · rw [hc, List.dropWhile_cons_of_pos rfl, ih, List.takeWhile_cons_of_pos rfl, holdsCode, holdsCode,
        List.dropWhile_cons_of_pos Text.isBlank_space]
    · rw [List.dropWhile_cons_of_neg (by simpa using hc)]

/-- What follows the last newline can be sliced off. -/
theorem lastNewline?_cases (cs : List Char) : ('\n' ∉ cs ∧ lastNewline? cs = none) ∨ ∃ before last,
    cs = before ++ '\n' :: last ∧ '\n' ∉ last ∧ lastNewline? cs = some (byteLength before) := by
  induction cs with
  | nil => exact Or.inl ⟨List.not_mem_nil, rfl⟩
  | cons c cs ih =>
    rw [lastNewline?]
    rcases ih with ⟨hcs, hnone⟩ | ⟨before, last, rfl, hlast, hsome⟩
    · by_cases hc : c = '\n'
      · exact Or.inr ⟨[], cs, by rw [hc]; rfl, hcs, by rw [hnone, if_pos hc]; rfl⟩
      · refine Or.inl ⟨?_, by rw [hnone, if_neg hc]; rfl⟩
        rw [List.mem_cons, not_or]
        exact ⟨Ne.symm hc, hcs⟩
    · exact Or.inr ⟨c :: before, last, rfl, hlast, by rw [hsome]; rfl⟩

/-- The last line of a text says in which column a text ends that goes over several lines. -/
theorem exists_lastLineWidth (cs : List Char) : ∃ width, lastLineWidth? cs = some width ∧
    ∀ p : Position, p.after cs = ⟨p.line + cs.count '\n', width.getD (p.column + cs.length)⟩ := by
  rcases lastNewline?_cases cs with ⟨hcs, hnone⟩ | ⟨before, last, rfl, hlast, hsome⟩
  · refine ⟨none, by rw [lastLineWidth?, hnone], fun p => ?_⟩
    rw [Position.after_of_notMem p cs hcs, List.count_eq_zero.2 hcs]
    rfl
  · have hbytes : byteLength (before ++ ['\n']) = byteLength before + 1 := Text.byteLength_append _ _
    have hslice : sliceFrom? (byteLength before + 1) (before ++ '\n' :: last) = some last := by
      rw [← hbytes, ← sliceFrom?_append (before ++ ['\n']) last, List.append_assoc, List.singleton_append]
    refine ⟨some last.length, by simp only [lastLineWidth?, hsome, hslice, Option.map_some], fun p => ?_⟩
    have hline := p.line_after (before ++ '\n' :: last)
    rw [Position.after_append, Position.after_cons, Position.next_newline,
      Position.after_of_notMem _ _ hlast] at hline ⊢
    rw [← hline, Nat.zero_add]
    rfl

/-! ## The scan -/

/-- A scan that goes through a text with a cursor, the column of which is counted from the start of the line. It holds
the tokens so far. -/
structure ByteScan where
  source : List Char
  cursor : Cursor
  line : Nat := 1
  brackets : Nat := 0
  layout : Layout := {}
  atLineStart : Bool := true
  tokens : List Token := []

namespace ByteScan

def ofString (source : String) : ByteScan where
  source := source.toList
  cursor := .ofString source

def position (s : ByteScan) : Position := ⟨s.line, s.cursor.column⟩

/-- What a scan of lexemes knows at the same place. -/
def scan (s : ByteScan) : Scan := ⟨s.position, s.brackets, s.layout, s.atLineStart⟩

def push (s : ByteScan) (ts : List Token) : ByteScan := { s with tokens := s.tokens ++ ts }

def remainder? (s : ByteScan) : Option (List Char) := sliceFrom? s.cursor.offset s.source

def slice? (s : ByteScan) (n : Nat) : Option (List Char) := s.remainder?.bind (sliceTo? n)

def advance? (s : ByteScan) (n : Nat) : Option ByteScan := (s.cursor.advance? n).map fun cursor => { s with cursor }

def marked (s : ByteScan) (width : Nat) : ByteScan :=
  { s.push ((s.layout.marks width).map (Scan.mark ⟨s.line, width⟩)) with layout := s.layout.move width }

/-- Adds the marks of the blocks that a line of width `width` opens or closes, if what follows its spaces is code. Lines
inside brackets and lines without code have none. -/
def indent? (s : ByteScan) (width : Nat) : Option ByteScan := do
  if 0 < s.brackets then
    return s
  let rest ← s.remainder?
  if holdsCode (rest.takeWhile (· != '\n')) then
    return s.marked width
  return s

/-- Measures the front of a line and moves past it. -/
def measure? (s : ByteScan) : Option ByteScan := do
  let rest ← s.remainder?
  let s ← { s with atLineStart := false }.advance? (spaceBytes rest)
  s.indent? (spaceBytes rest)

def takeNewline? (s : ByteScan) (n : Nat) : Option ByteScan := do
  let s ← s.advance? n
  return { s with line := s.line + 1, cursor := { s.cursor with column := 0 }, atLineStart := true }

def takeLexeme? (s : ByteScan) (shape : Lexeme.Shape) (n : Nat) : Option ByteScan := do
  let l : Lexeme := ⟨shape, ← s.slice? n⟩
  { s.push (l.token? s.position).toList with brackets := l.brackets s.brackets }.advance? n

/-- Takes the next `n` bytes as a string, which may end on a later line. -/
def takeString? (s : ByteScan) (n : Nat) : Option ByteScan := do
  let value ← s.slice? n
  let width ← lastLineWidth? value
  let s ← (s.push (Lexeme.token? ⟨.string, value⟩ s.position).toList).advance? n
  return { s with line := s.line + value.count '\n', cursor := { s.cursor with column := width.getD s.cursor.column } }

def handle? (s : ByteScan) (shape : Lexeme.Shape) (n : Nat) : Option ByteScan :=
  match shape with
  | .gap | .comment => s.advance? n
  | .newline => s.takeNewline? n
  | .string => s.takeString? n
  | shape => s.takeLexeme? shape n

def take? (s : ByteScan) : Option ByteScan := do
  match ← s.remainder? with
  | [] => none
  | c :: cs =>
    let shape := Lexeme.Shape.ofChar c
    s.handle? shape (byteLength (c :: (shape.extent cs).1))

/-- Measures the front of a line, or takes one lexeme. -/
def step? (s : ByteScan) : Option ByteScan := if s.atLineStart then s.measure? else s.take?

/-! ## Every step gets on -/

/-- What is left to do: every character is taken, and every start of a line is measured. -/
def size (s : ByteScan) : Nat := 2 * s.cursor.remainder.length + s.atLineStart.toNat

section

variable {s s' : ByteScan}

theorem size_lt_of_length_lt (h : s'.cursor.remainder.length < s.cursor.remainder.length) : s'.size < s.size := by
  have := Bool.toNat_le s'.atLineStart
  simp only [size]
  omega

theorem length_of_advance? {n : Nat} (h : s.advance? n = some s') :
    s'.cursor.remainder.length ≤ s.cursor.remainder.length ∧
      (0 < n → s'.cursor.remainder.length < s.cursor.remainder.length) ∧ s'.atLineStart = s.atLineStart := by
  obtain ⟨c, hc, rfl⟩ := Option.map_eq_some_iff.1 h
  obtain ⟨passed, hremainder, rfl, -, -⟩ := (Cursor.advance?_eq_some_iff _ _ _).1 hc
  rw [← hremainder, List.length_append]
  refine ⟨Nat.le_add_left _ _, fun hpos => ?_, rfl⟩
  have hne : passed ≠ [] := by
    rintro rfl
    exact absurd hpos (Nat.lt_irrefl 0)
  exact Nat.lt_add_of_pos_left (List.length_pos_iff.2 hne)

theorem length_lt_of_handle? {shape : Lexeme.Shape} {n : Nat} (pos : 0 < n) (h : s.handle? shape n = some s') :
    s'.cursor.remainder.length < s.cursor.remainder.length := by
  cases shape with
  | gap | comment => exact (length_of_advance? h).2.1 pos
  | newline =>
    obtain ⟨moved, hmove, hs'⟩ := Option.bind_eq_some_iff.1 h
    rw [← Option.some.inj hs']
    exact (length_of_advance? hmove).2.1 pos
  | string =>
    obtain ⟨value, -, h⟩ := Option.bind_eq_some_iff.1 h
    obtain ⟨width, -, h⟩ := Option.bind_eq_some_iff.1 h
    obtain ⟨moved, hmove, hs'⟩ := Option.bind_eq_some_iff.1 h
    rw [← Option.some.inj hs']
    exact (length_of_advance? hmove).2.1 pos
  | word | number | operators | opening | closing | single =>
    obtain ⟨text, -, hmove⟩ := Option.bind_eq_some_iff.1 h
    exact (length_of_advance? hmove).2.1 pos

theorem eq_or_eq_marked_of_indent? {width : Nat} (h : s.indent? width = some s') : s' = s ∨ s' = s.marked width := by
  unfold indent? at h
  split at h
  · exact Or.inl (Option.some.inj h).symm
  · obtain ⟨rest, -, h⟩ := Option.bind_eq_some_iff.1 h
    split at h
    · exact Or.inr (Option.some.inj h).symm
    · exact Or.inl (Option.some.inj h).symm

/-- Every step takes characters, or goes on from the start of a line. -/
theorem size_lt_of_step? (h : s.step? = some s') : s'.size < s.size := by
  unfold step? at h
  split at h
  · next hs =>
    -- no character need be taken here, but the line start is done with
    obtain ⟨rest, -, h⟩ := Option.bind_eq_some_iff.1 h
    obtain ⟨moved, hmove, h⟩ := Option.bind_eq_some_iff.1 h
    obtain ⟨hle, -, hstart⟩ := length_of_advance? hmove
    have hsize : moved.size < s.size := by
      simp only [size, hstart, hs, Bool.toNat_false, Bool.toNat_true]
      exact Nat.lt_succ_of_le (Nat.mul_le_mul_left 2 hle)
    rcases eq_or_eq_marked_of_indent? h with rfl | rfl
    · exact hsize
    · exact hsize
  · obtain ⟨rest, -, h⟩ := Option.bind_eq_some_iff.1 h
    cases rest with
    | nil => cases h
    | cons c cs =>
      have hpos : 0 < byteLength (c :: ((Lexeme.Shape.ofChar c).extent cs).1) :=
        Nat.add_pos_left c.utf8Size_pos _
      exact size_lt_of_length_lt (length_lt_of_handle? hpos h)

end

/-- The tokens of the text, or `none` if a step is refused. -/
def run? (s : ByteScan) : Option (List Token) :=
  if s.cursor.atEnd then some (s.tokens ++ s.scan.finish)
  else
    match _ : s.step? with
    | none => none
    | some s' => s'.run?
termination_by s.size
decreasing_by exact size_lt_of_step? (by assumption)

/-! ## What a step does -/

/-- The cursor cuts the text in two. -/
def Aligned (s : ByteScan) : Prop := ∃ front, s.cursor.Divides front s.source

def past (s : ByteScan) (l : Lexeme) (rest : List Char) : ByteScan :=
  { s with
    cursor := ⟨rest, (s.position.after l.text).column, s.cursor.offset + byteLength l.text⟩
    line := (s.position.after l.text).line
    brackets := l.brackets s.brackets
    atLineStart := l.shape == .newline
    tokens := s.tokens ++ (l.token? s.position).toList }

def pastSpaces (s : ByteScan) : ByteScan :=
  { s with
    cursor := ⟨s.cursor.remainder.dropWhile (· == ' '), s.cursor.column + leadingSpaces s.cursor.remainder,
      s.cursor.offset + leadingSpaces s.cursor.remainder⟩
    atLineStart := false }

theorem aligned_ofString (source : String) : (ofString source).Aligned :=
  ⟨[], (Cursor.standsAfter_ofString source).toDivides⟩

section

variable {s : ByteScan} {passed rest : List Char}

theorem Aligned.remainder? (aligned : s.Aligned) : s.remainder? = some s.cursor.remainder := by
  obtain ⟨front, h⟩ := aligned
  rw [ByteScan.remainder?, sliceFrom?, h.splitBytes?, Option.map_some]

theorem Aligned.slice? (aligned : s.Aligned) (ahead : s.cursor.remainder = passed ++ rest) :
    s.slice? (byteLength passed) = some passed := by
  rw [ByteScan.slice?, aligned.remainder?, ahead, Option.bind_some, sliceTo?_append]

theorem advance?_eq (ahead : s.cursor.remainder = passed ++ rest) : s.advance? (byteLength passed) = some { s with
    cursor := ⟨rest, s.cursor.column + passed.length, s.cursor.offset + byteLength passed⟩ } := by
  rw [advance?, Cursor.advance?_of_append ahead, Option.map_some]

theorem advance?_spaces (s : ByteScan) : { s with atLineStart := false }.advance? (leadingSpaces s.cursor.remainder) =
    some s.pastSpaces := by
  have ahead : s.cursor.remainder =
      s.cursor.remainder.takeWhile (· == ' ') ++ s.cursor.remainder.dropWhile (· == ' ') :=
    List.takeWhile_append_dropWhile.symm
  have hmove := advance?_eq (s := { s with atLineStart := false }) ahead
  rw [byteLength_takeWhile_space] at hmove
  exact hmove

end

section

variable {s : ByteScan} {l : Lexeme} {rest : List Char}

theorem Aligned.past (aligned : s.Aligned) (ahead : s.cursor.remainder = l.text ++ rest) : (s.past l rest).Aligned := by
  obtain ⟨front, h⟩ := aligned
  exact ⟨front ++ l.text, h.of_passed ahead.symm rfl⟩

/-- Within a line a lexeme takes as many columns as it has characters. -/
theorem position_after (hl : '\n' ∉ l.text) :
    s.position.after l.text = ⟨s.line, s.cursor.column + l.text.length⟩ := Position.after_of_notMem _ _ hl

variable (ahead : s.cursor.remainder = l.text ++ rest)
include ahead

theorem advance?_eq_past (silent : l.kind? = none) (newline : l.shape ≠ .newline) (hl : '\n' ∉ l.text)
    (hs : s.atLineStart = false) : s.advance? (byteLength l.text) = some (s.past l rest) := by
  rw [advance?_eq ahead, ByteScan.past, position_after hl, Lexeme.token?_of_silent silent,
    Lexeme.brackets_of_silent silent, beq_false_of_ne newline, ← hs]
  simp

theorem takeNewline?_eq (hl : l = ⟨.newline, ['\n']⟩) :
    s.takeNewline? (byteLength l.text) = some (s.past l rest) := by
  subst hl
  rw [takeNewline?, advance?_eq ahead]
  simp [ByteScan.past, Lexeme.token?, Lexeme.kind?, Lexeme.brackets, position]

variable (aligned : s.Aligned)
include aligned

theorem takeLexeme?_eq (newline : l.shape ≠ .newline) (hl : '\n' ∉ l.text) (hs : s.atLineStart = false) :
    s.takeLexeme? l.shape (byteLength l.text) = some (s.past l rest) := by
  rw [takeLexeme?, aligned.slice? ahead]
  have hmove := advance?_eq (s := { s.push (l.token? s.position).toList with brackets := l.brackets s.brackets }) ahead
  rw [ByteScan.past, position_after hl, beq_false_of_ne newline, ← hs]
  exact hmove

theorem takeString?_eq (hl : l.shape = .string) (hs : s.atLineStart = false) :
    s.takeString? (byteLength l.text) = some (s.past l rest) := by
  have hshape : ⟨.string, l.text⟩ = l := by rw [← hl]
  have hbrackets : l.brackets s.brackets = s.brackets := by rw [Lexeme.brackets, hl]
  have hstart : (l.shape == .newline) = s.atLineStart := by rw [hl, hs]; rfl
  obtain ⟨width, hwidth, hafter⟩ := exists_lastLineWidth l.text
  rw [takeString?, aligned.slice? ahead, Option.bind_eq_bind, Option.bind_some, hwidth, Option.bind_eq_bind,
    Option.bind_some, hshape, advance?_eq (s := s.push (l.token? s.position).toList) ahead, Option.bind_eq_bind,
    Option.bind_some, ByteScan.past, hafter s.position, hbrackets, hstart]
  rfl

/-- A lexeme is taken whole, and the scan goes on behind it. -/
theorem handle?_eq (fits : l.Fits rest) (hs : s.atLineStart = false) :
    s.handle? l.shape (byteLength l.text) = some (s.past l rest) := by
  -- only a newline and a string can leave the line, and they have handlers of their own
  have inLine : l.shape ≠ .newline → l.shape ≠ .string → '\n' ∉ l.text := l.notMem_newline_of_fits rest fits
  cases hl : l.shape with
  | gap | comment =>
    rw [hl] at inLine
    exact advance?_eq_past ahead (by rw [Lexeme.kind?, hl]) (by rw [hl]; decide) (inLine (by decide) (by decide)) hs
  | newline =>
    have htext := l.text_of_newline rest fits hl
    exact takeNewline?_eq ahead (by rw [← hl, ← htext])
  | string => exact takeString?_eq ahead aligned hl hs
  | word | number | operators | opening | closing | single =>
    rw [hl] at inLine
    have h := takeLexeme?_eq ahead aligned (by rw [hl]; decide) (inLine (by decide) (by decide)) hs
    rwa [hl] at h

end

section

variable {s : ByteScan} (aligned : s.Aligned)
include aligned

/-- Within a line the scan takes the next lexeme. -/
theorem exists_take?_eq (hs : s.atLineStart = false) {l : Lexeme} {ls : List Lexeme}
    (h : lexemes s.cursor.remainder = l :: ls) :
    ∃ rest, s.cursor.remainder = l.text ++ rest ∧ ls = lexemes rest ∧ s.take? = some (s.past l rest) := by
  obtain ⟨rest, ahead, fits, hrest⟩ := fits_of_lexemes _ l ls h
  have hhandle := handle?_eq ahead aligned fits hs
  obtain ⟨c, cs, htext, hshape, hextent⟩ := fits
  have hfront : s.cursor.remainder = c :: (cs ++ rest) := by rw [ahead, htext, List.cons_append]
  refine ⟨rest, ahead, hrest, ?_⟩
  rw [take?, aligned.remainder?, hfront, Option.bind_eq_bind, Option.bind_some]
  show s.handle? (.ofChar c) (byteLength (c :: ((Lexeme.Shape.ofChar c).extent (cs ++ rest)).1)) = _
  rw [← hshape, hextent, ← htext, hhandle]

theorem indent?_eq (width : Nat) : s.indent? width = some
    (if s.brackets = 0 ∧ holdsCode (s.cursor.remainder.takeWhile (· != '\n')) = true then s.marked width else s) := by
  rw [indent?, aligned.remainder?, Option.bind_eq_bind, Option.bind_some]
  by_cases hb : s.brackets = 0
  · rw [if_neg (by omega)]
    simp only [hb, true_and]
    split <;> rfl
  · rw [if_pos (Nat.pos_of_ne_zero hb), if_neg (fun h => hb h.1)]
    rfl

theorem Aligned.pastSpaces : s.pastSpaces.Aligned := by
  obtain ⟨front, h⟩ := aligned
  refine ⟨front ++ s.cursor.remainder.takeWhile (· == ' '), h.of_passed List.takeWhile_append_dropWhile ?_⟩
  rw [byteLength_takeWhile_space]
  rfl

/-- At the front of a line the scan moves to the first character that is no space, and adds marks if a line starts. -/
theorem measure?_eq (hs : s.atLineStart = true) : s.measure? = some
    (if s.scan.startsLine (lexemes s.cursor.remainder) = true then
      s.pastSpaces.marked (Layout.widthOf (lexemes s.cursor.remainder))
    else s.pastSpaces) := by
  have hstarts : s.scan.startsLine (lexemes s.cursor.remainder) = true ↔
      s.brackets = 0 ∧ holdsCode ((s.cursor.remainder.dropWhile (· == ' ')).takeWhile (· != '\n')) = true := by
    rw [holdsCode_dropWhile_space, ← isSignificant_lexemes]
    simp [Scan.startsLine, scan, hs]
  have hwidth : Layout.widthOf (lexemes s.cursor.remainder) = leadingSpaces s.cursor.remainder := by
    rw [widthOf_lexemes, leadingSpaces, takeWhile_spaces _ (by decide), ← leadingSpaces]
  rw [measure?, aligned.remainder?, Option.bind_eq_bind, Option.bind_some, spaceBytes_eq, advance?_spaces,
    Option.bind_eq_bind, Option.bind_some, indent?_eq aligned.pastSpaces, hwidth]
  simp only [hstarts]
  rfl

end

/-! ## The tokens of a scan -/

/-- The tokens of the scan, and those that the rest of the text brings. -/
def outcome (s : ByteScan) : List Token := s.tokens ++ s.scan.run (lexemes s.cursor.remainder)

/-- A lexeme that is taken has brought its tokens. -/
theorem outcome_past (s : ByteScan) (hs : s.atLineStart = false) (l : Lexeme) (rest : List Char)
    (h : lexemes s.cursor.remainder = l :: lexemes rest) : (s.past l rest).outcome = s.outcome := by
  have hstarts : s.scan.startsLine (l :: lexemes rest) = false := by
    rw [Scan.startsLine, scan, hs]
    rfl
  rw [outcome, outcome, h, Scan.run_cons, Scan.emit, Scan.marks, Scan.step, hstarts, ← List.append_assoc]
  rfl

theorem outcome_pastSpaces (s : ByteScan) : s.pastSpaces.outcome =
    s.tokens ++ { s.scan with atLineStart := false }.run (lexemes s.cursor.remainder) := by
  have hspaces : ∀ c ∈ s.cursor.remainder.takeWhile (· == ' '), c = ' ' :=
    fun c hc => eq_of_beq (List.all_eq_true.1 List.all_takeWhile c hc)
  have hgaps : ∀ c ∈ s.cursor.remainder.takeWhile (· == ' '), isGap c = true :=
    fun c hc => by rw [hspaces c hc]; decide
  have hline : '\n' ∉ s.cursor.remainder.takeWhile (· == ' ') :=
    fun hc => absurd (hspaces _ hc) (by decide)
  have hrun := Scan.run_gaps { s.scan with atLineStart := false } rfl _ (s.cursor.remainder.dropWhile (· == ' ')) hgaps
  rw [List.takeWhile_append_dropWhile, Position.after_of_notMem _ _ hline] at hrun
  rw [hrun]
  rfl

theorem marked_pastSpaces (s : ByteScan) (width : Nat) : s.pastSpaces.marked width = (s.marked width).pastSpaces := rfl

/-- The front of a line that is measured has brought its marks. -/
theorem outcome_measured (s : ByteScan) :
    (if s.scan.startsLine (lexemes s.cursor.remainder) = true then
      s.pastSpaces.marked (Layout.widthOf (lexemes s.cursor.remainder))
    else s.pastSpaces).outcome = s.outcome := by
  -- a scan of lexemes adds the marks before the spaces, and this scan after them
  have houtcome := Scan.run_eq_marks_append s.scan (lexemes s.cursor.remainder)
  rw [Scan.marks] at houtcome
  show _ = s.tokens ++ s.scan.run (lexemes s.cursor.remainder)
  rw [houtcome]
  split
  · rw [marked_pastSpaces, outcome_pastSpaces, ← List.append_assoc]
    rfl
  · rw [outcome_pastSpaces]
    rfl

/-- Before the end no step is refused, and every step brings its part of the tokens. -/
theorem exists_step?_eq {s : ByteScan} (aligned : s.Aligned) (more : s.cursor.remainder ≠ []) :
    ∃ s', s.step? = some s' ∧ s'.Aligned ∧ s'.outcome = s.outcome := by
  rw [step?]
  cases hs : s.atLineStart with
  | true =>
    refine ⟨_, measure?_eq aligned hs, ?_, s.outcome_measured⟩
    split
    · exact aligned.pastSpaces
    · exact aligned.pastSpaces
  | false =>
    obtain ⟨c, cs, hc⟩ := List.exists_cons_of_ne_nil more
    obtain ⟨rest, ahead, hrest, htake⟩ := exists_take?_eq aligned hs (by rw [hc]; exact lexemes_cons c cs)
    exact ⟨_, htake, aligned.past ahead, outcome_past s hs _ rest (by rw [hc, lexemes_cons, hrest])⟩

/-- The scan by bytes is not refused, and its tokens are those that the lexemes bring. -/
theorem run?_eq {s : ByteScan} (aligned : s.Aligned) : s.run? = some s.outcome := by
  -- by the steps of the scan, each of which keeps it aligned and its outcome the same
  fun_induction run? s with
  | case1 s hend =>
    rw [outcome, s.cursor.atEnd_iff.1 hend, lexemes_nil]
    rfl
  | case2 s hend hrefused =>
    obtain ⟨s', hstep, -⟩ := exists_step?_eq aligned fun hnil => hend (s.cursor.atEnd_iff.2 hnil)
    rw [hrefused] at hstep
    cases hstep
  | case3 s hend s' hstep ih =>
    obtain ⟨_, hstep', haligned, houtcome⟩ :=
      exists_step?_eq aligned fun hnil => hend (s.cursor.atEnd_iff.2 hnil)
    obtain rfl := Option.some.inj (hstep.symm.trans hstep')
    rw [ih haligned, houtcome]

end ByteScan

/-! ## Where a cursor stands -/

/-- A cursor at the front of a text takes a move exactly if some characters at the front of the text have as many bytes
as it has passed and is to pass. After any moves it has passed the sum of those that it took, which are the bytes of the
characters before it; it counts these characters, the others are left, and it is at the end exactly if there are none. A
scan that goes through the text with a cursor is never refused a move or a slice, and its tokens are those of the
text. -/
theorem cursor_between_characters (source : String) :
    (∀ (moves : List Nat) (n : Nat),
      let c := (Cursor.ofString source).tryAdvances moves
      (c.advance? n).isSome = true ↔
        ∃ front back : String, source = front ++ back ∧ front.utf8ByteSize = c.offset + n) ∧
    (∀ moves : List Nat,
      let c := (Cursor.ofString source).tryAdvances moves
      c.offset = ((Cursor.ofString source).accepted moves).sum ∧
        (∃ front back : String, source = front ++ back ∧ front.utf8ByteSize = c.offset ∧ c.remainder = back.toList ∧
          c.column = front.length) ∧
        (c.atEnd = true ↔ c.remainder = []) ∧ (c.atEnd = true ↔ source.utf8ByteSize ≤ c.offset)) ∧
    (ByteScan.ofString source).run? = some (tokenize source) := by
  have stands := (Cursor.standsAfter_ofString source).tryAdvances
  refine ⟨fun moves n => ?_, fun moves => ?_, ?_⟩
  · intro c
    obtain ⟨_, hfront⟩ := stands moves
    rw [hfront.isSome_advance?_iff n]
    constructor
    · rintro ⟨xs, ys, hsource, hbytes⟩
      refine ⟨String.ofList xs, String.ofList ys, ?_, ?_⟩
      · rw [← String.ofList_append, ← hsource, String.ofList_toList]
      · rw [Text.utf8ByteSize_ofList, hbytes]
    · rintro ⟨front, back, rfl, hbytes⟩
      exact ⟨front.toList, back.toList, String.toList_append, by rw [Text.byteLength_toList, hbytes]⟩
  · intro c
    obtain ⟨front, hfront⟩ := stands moves
    refine ⟨?_, ⟨String.ofList front, String.ofList c.remainder, ?_, ?_, ?_, ?_⟩, c.atEnd_iff, ?_⟩
    · rw [Cursor.offset_tryAdvances]
      exact Nat.zero_add _
    · rw [← String.ofList_append, hfront.source, String.ofList_toList]
    · rw [Text.utf8ByteSize_ofList, hfront.offset]
    · rw [String.toList_ofList]
    · rw [← String.length_toList, String.toList_ofList, hfront.column]
    · rw [← Text.byteLength_toList]
      exact hfront.atEnd_iff_le
  · exact ByteScan.run?_eq (ByteScan.aligned_ofString source)

end ExprLang
