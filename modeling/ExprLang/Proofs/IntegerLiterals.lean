import ExprLang.Proofs.Accepted
import ExprLang.Proofs.Numeral
import ExprLang.Proofs.Parser.Account
import ExprLang.Proofs.Parser.Refusal
import ExprLang.Proofs.RoundTrip
import ExprLang.Proofs.Token.Reading
import ExprLang.Proofs.Token.Spacing

/-!
# Integers in a text

A text of digits is one integer, however many digits there are. It is read as its value and printed without the zeros at
its front, as long as the value fits in 64 bits; if not, all of the digits are refused.

* `liveTokens_tokenize_of_digits` : digits alone make one token;
* `text_integer_of_digits` : how the value is printed;
* `Rule.run_factor_of_fits`, `Rule.run_factor_of_large` : a factor takes the token, or leaves everything as it is;
* `read_digits_iff_fits` : the bound is exact, alone and in any place where a parser may stand.
-/

namespace ExprLang

open Grammar (Derives Statement Stuck StuckStatement StuckSole)

/-! ## Digits alone -/

section

variable {digits : String} (nonempty : digits ≠ "") (ascii : ∀ c ∈ digits.toList, c.isDigit = true)
include nonempty ascii

theorem lexemes_of_digits : lexemes digits.toList = [⟨.number, digits.toList⟩] := by
  have hne : digits.toList ≠ [] := fun h => nonempty (String.toList_eq_nil_iff.1 h)
  have fits : Lexeme.Fits ⟨.number, digits.toList⟩ [] :=
    Lexeme.fits_of_digits hne ascii (by rintro _ ⟨⟩) (by rintro _ ⟨⟩)
  exact Lexeme.lexemes_alone fits

/-- Digits make one token, at the start of the text. -/
theorem liveTokens_tokenize_of_digits :
    liveTokens (tokenize digits) = [{ toPosition := .start, kind := .integerLiteral, text := digits }] := by
  have hlexemes := lexemes_of_digits nonempty ascii
  have hflush : Flush true (lexemes digits.toList) := by
    rw [hlexemes]
    refine ⟨fun _ => ?_, trivial⟩
    show (digits.toList.takeWhile (· == ' ')).length = 0
    cases htext : digits.toList with
    | nil => rfl
    | cons c cs =>
      rw [List.takeWhile_cons_of_neg, List.length_nil]
      intro hspace
      have hdigit := ascii c (by rw [htext]; exact List.mem_cons_self)
      rw [eq_of_beq hspace] at hdigit
      exact absurd hdigit (by decide)
  obtain ⟨htokens, hlayout⟩ := tokens_of_flush {} (lexemes digits.toList) rfl hflush
  rw [liveTokens_tokenize, htokens, hlayout, hlexemes, Lexeme.tokensFrom, Lexeme.token?, Lexeme.kind?,
    contains_point_of_digits ascii]
  simp [Lexeme.tokensFrom, Layout.closing]

end

/-- A value is printed as its digits without the zeros at their front. -/
theorem text_integer_of_digits {digits : String} (ascii : ∀ c ∈ digits.toList, c.isDigit = true) {i : Int64}
    (value : i.toInt = Numeral.placeValue digits.toList) :
    (Node.integer i).text = String.ofList (Numeral.withoutLeadingZeros digits.toList) := by
  have hi : 0 ≤ i := Int64.le_iff_toInt_le.2 (by rw [value]; exact Int.natCast_nonneg _)
  rw [← String.toList_inj, String.toList_ofList, Node.text, Node.toList_ofInt64 i hi, value, Int.toNat_natCast,
    Numeral.toDigits_placeValue ascii]

/-! ## A token of digits ahead -/

namespace Rule

variable {p : Parser} {t : Token} {rest : List Token} (hp : p.ahead = t :: rest) (kind : t.kind = .integerLiteral)
include hp kind

theorem run_factor_of_fits {i : Int64} (value : Numeral.int64? t.text = some i) :
    factor.run p = .ok (.integer i) (p.after t) := by
  obtain ⟨parenthesis, hfactor⟩ := exists_factorAt_eq p.levels
  show (factorAt p.levels).run p = _
  rw [hfactor]
  exact run_factorWith_integer parenthesis p t rest hp i kind value

theorem run_factor_of_large (value : Numeral.int64? t.text = none) :
    factor.run p = .error (.atToken (.invalidNumeral t.text) t) p := by
  obtain ⟨parenthesis, hfactor⟩ := exists_factorAt_eq p.levels
  show (factorAt p.levels).run p = _
  rw [hfactor]
  exact run_factorWith_numeral parenthesis p t rest hp kind value

end Rule

/-! ## The bound -/

theorem parse_of_fits {ts : List Token} {t : Token} {i : Int64} (alone : liveTokens ts = [t])
    (kind : t.kind = .integerLiteral) (value : Numeral.int64? t.text = some i) : parse ts = .ok (.integer i) := by
  rw [parse_eq_ok_iff, alone]
  exact .expression (.term (.factor (.integer kind value)))

theorem parse_of_large {ts : List Token} {t : Token} (alone : liveTokens ts = [t]) (kind : t.kind = .integerLiteral)
    (value : Numeral.int64? t.text = none) : parse ts = .error (.atToken (.invalidNumeral t.text) t) := by
  rw [parse_eq_error_iff]
  exact ⟨[], [t], alone, .statement (.expression (.term (.factor (.numeral kind value))))⟩

/-- Digits are read as the integer that is their value, and printed without the zeros at their front, exactly if the
value fits in 64 bits with a sign. If it does not, they are refused with all of their text. Where a parser comes to such
a token, it takes this token alone, or fails and stays as it was. -/
theorem read_digits_iff_fits (digits : String) (nonempty : digits ≠ "")
    (ascii : ∀ c ∈ digits.toList, c.isDigit = true) :
    let value := Numeral.placeValue digits.toList
    (value ≤ 9223372036854775807 ↔ ∃ i : Int64, i.toInt = value ∧ parse (tokenize digits) = .ok (.integer i) ∧
      (Node.integer i).text = String.ofList (Numeral.withoutLeadingZeros digits.toList)) ∧
    (9223372036854775807 < value → parse (tokenize digits) = .error ⟨.invalidNumeral digits, 1, some 0⟩) ∧
    ∀ (p : Parser) (t : Token) (rest : List Token),
      p.ahead = t :: rest → t.kind = .integerLiteral → t.text = digits →
        (value ≤ 9223372036854775807 →
          ∃ i : Int64, i.toInt = value ∧ Rule.factor.run p = .ok (.integer i) (p.after t)) ∧
        (9223372036854775807 < value →
          Rule.factor.run p = .error ⟨.invalidNumeral digits, t.line, some t.column⟩ p) := by
  intro value
  have alone := liveTokens_tokenize_of_digits nonempty ascii
  have read := Numeral.exists_int64?_eq_some nonempty ascii
  have refused : 9223372036854775807 < value →
      parse (tokenize digits) = .error ⟨.invalidNumeral digits, 1, some 0⟩ :=
    fun large => parse_of_large alone rfl (Numeral.int64?_eq_none nonempty ascii large)
  refine ⟨⟨fun fits => ?_, ?_⟩, refused, ?_⟩
  · obtain ⟨i, hi, hsome⟩ := read fits
    exact ⟨i, hi, parse_of_fits alone rfl hsome, text_integer_of_digits ascii hi⟩
  · rintro ⟨i, -, hparse, -⟩
    by_contra hlarge
    rw [refused (Nat.lt_of_not_le hlarge)] at hparse
    cases hparse
  · rintro p t rest hp kind rfl
    constructor
    · intro fits
      obtain ⟨i, hi, hsome⟩ := read fits
      exact ⟨i, hi, Rule.run_factor_of_fits hp kind hsome⟩
    · intro large
      exact Rule.run_factor_of_large hp kind (Numeral.int64?_eq_none nonempty ascii large)

/-- The greatest value with zeros before it is read and printed without them, and the next value is refused, alone and
after two parentheses that a failure has left open. -/
theorem read_digits_at_bound :
    let most := "000009223372036854775807"
    let more := "09223372036854775808"
    let p := (Parser.ofTokens (tokenize "(( 09223372036854775808)")).performAll [.read .statement]
    (most ≠ "" ∧ ∀ c ∈ most.toList, c.isDigit = true) ∧ (more ≠ "" ∧ ∀ c ∈ more.toList, c.isDigit = true) ∧
      (∃ i : Int64, i.toInt = 9223372036854775807 ∧ parse (tokenize most) = .ok (.integer i) ∧
        (Node.integer i).text = "9223372036854775807") ∧
      parse (tokenize more) = .error ⟨.invalidNumeral more, 1, some 0⟩ ∧
      p.depth = 2 ∧ Rule.factor.run p = .error ⟨.invalidNumeral more, 1, some 3⟩ p := by
  intro most more p
  have hmost : most ≠ "" ∧ ∀ c ∈ most.toList, c.isDigit = true :=
    ⟨by decide, List.all_eq_true.1 (by decide +kernel)⟩
  have hmore : more ≠ "" ∧ ∀ c ∈ more.toList, c.isDigit = true :=
    ⟨by decide, List.all_eq_true.1 (by decide +kernel)⟩
  have hmostValue : Numeral.placeValue most.toList = 9223372036854775807 := by decide +kernel
  have hmoreValue : 9223372036854775807 < Numeral.placeValue more.toList := by decide +kernel
  have hahead : p.ahead = [⟨⟨1, 3⟩, .integerLiteral, more⟩, ⟨⟨1, 23⟩, .operator, ")"⟩] := by decide +kernel
  obtain ⟨⟨hread, -⟩, -⟩ := read_digits_iff_fits most hmost.1 hmost.2
  obtain ⟨-, hrefused, hfactor⟩ := read_digits_iff_fits more hmore.1 hmore.2
  obtain ⟨i, hi, hparse, htext⟩ := hread (Nat.le_of_eq hmostValue)
  refine ⟨hmost, hmore, ⟨i, ?_, hparse, htext.trans ?_⟩, hrefused hmoreValue, ?_, ?_⟩
  · rw [hi, hmostValue]
    rfl
  · decide +kernel
  · decide +kernel
  · exact (hfactor p _ _ hahead rfl rfl).2 hmoreValue

end ExprLang
