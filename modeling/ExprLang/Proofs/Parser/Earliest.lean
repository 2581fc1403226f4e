import ExprLang.Token.Scan
import ExprLang.Proofs.Parser.Refusal

/-!
# A refusal comes at the earliest token, and is final

* `Rule.taken` : how many tokens a rule has taken when it stops;
* `parse_and_parseProgram_refuse_earliest` : the tokens taken before a refusal begin something that is accepted, and
  nothing that begins with them and the next one is.
-/

namespace ExprLang

/-- The parser where a rule stops that starts at the front of the tokens. -/
def Rule.stop {α : Type} (rule : Rule α) (tokens : List Token) : Parser :=
  match rule.run (.ofTokens tokens) with
  | .ok _ p => p
  | .error _ p => p

def Rule.taken {α : Type} (rule : Rule α) (tokens : List Token) : Nat :=
  (liveTokens tokens).length - (rule.stop tokens).ahead.length

/-! ## Earliest and final -/

open Grammar (StuckSole StuckProgram)

section

variable {α : Type} {rule : Rule α} {stuck : Nat → List Token → List Token → Diagnostic → Prop} {tokens : List Token}
  {d : Diagnostic}

/-- A refusal cuts the tokens into those taken and those left, and is stuck there. -/
theorem Rule.stuck_of_error (breaks : ∀ endLine, Breaks endLine 0 (stuck endLine) rule)
    (h : rule.onTokens tokens = .error d) :
    ∃ ts rest, liveTokens tokens = ts ++ rest ∧ rule.taken tokens = ts.length ∧
      stuck (Parser.ofTokens tokens).endLine ts rest d := by
  obtain ⟨q, hq⟩ := (Rule.onTokens_eq_error_iff rule tokens d).1 h
  obtain ⟨ts, hts, hstuck⟩ := breaks _ (.ofTokens tokens) d q rfl rfl hq
  rw [ahead_ofTokens] at hts
  refine ⟨ts, q.ahead, hts, ?_, hstuck⟩
  rw [taken, stop, hq, hts, List.length_append, Nat.add_sub_cancel]

theorem Rule.earliest (breaks : ∀ endLine, Breaks endLine 0 (stuck endLine) rule)
    (viable : ∀ endLine ts rest d, stuck endLine ts rest d → ∃ more a, rule.onTokens (ts ++ more) = .ok a)
    (h : rule.onTokens tokens = .error d) :
    ∃ more a, rule.onTokens ((liveTokens tokens).take (rule.taken tokens) ++ more) = .ok a := by
  obtain ⟨ts, rest, hts, htaken, hstuck⟩ := stuck_of_error breaks h
  rw [hts, htaken, List.take_left]
  exact viable _ ts rest d hstuck

theorem Rule.final (breaks : ∀ endLine, Breaks endLine 0 (stuck endLine) rule)
    (of_cons : ∀ endLine endLine' ts t rest rest' d, stuck endLine ts (t :: rest) d → stuck endLine' ts (t :: rest') d)
    (refuses : ∀ tokens d ts rest, liveTokens tokens = ts ++ rest → stuck (Parser.ofTokens tokens).endLine ts rest d →
      rule.onTokens tokens = .error d)
    (h : rule.onTokens tokens = .error d) (next : rule.taken tokens < (liveTokens tokens).length) (more : List Token) :
    rule.onTokens ((liveTokens tokens).take (rule.taken tokens + 1) ++ more) = .error d := by
  obtain ⟨ts, rest, hts, htaken, hstuck⟩ := stuck_of_error breaks h
  cases rest with
  | nil =>
    rw [hts, htaken, List.append_nil] at next
    exact absurd next (Nat.lt_irrefl _)
  | cons t rest =>
    have htake : (liveTokens tokens).take (rule.taken tokens + 1) = ts ++ [t] := by
      rw [hts, htaken, List.append_cons]
      exact List.take_left' (by rw [List.length_append, List.length_singleton])
    rw [htake]
    refine refuses _ d ts (t :: liveTokens more) ?_ (of_cons _ _ ts t rest _ d hstuck)
    rw [liveTokens_append, List.append_assoc, List.singleton_append]
    intro u hu
    apply kind_ne_endOfFile_of_mem_liveTokens tokens u
    rw [hts, List.append_cons]
    exact List.mem_append_left _ hu

end

/-- The tokens that the parser has taken when it refuses a list of tokens begin a list that it accepts. If a token
comes next, then every list that begins with the tokens taken and this one is refused with the same diagnostic. -/
theorem parse_and_parseProgram_refuse_earliest (tokens : List Token) (d : Diagnostic) :
    (parse tokens = .error d →
      (∃ more n, parse ((liveTokens tokens).take (Rule.soleStatement.taken tokens) ++ more) = .ok n) ∧
      (Rule.soleStatement.taken tokens < (liveTokens tokens).length →
        ∀ more, parse ((liveTokens tokens).take (Rule.soleStatement.taken tokens + 1) ++ more) = .error d)) ∧
    (parseProgram tokens = .error d →
      (∃ more p, parseProgram ((liveTokens tokens).take (Rule.program.taken tokens) ++ more) = .ok p) ∧
      (Rule.program.taken tokens < (liveTokens tokens).length →
        ∀ more, parseProgram ((liveTokens tokens).take (Rule.program.taken tokens + 1) ++ more) = .error d)) := by
  have sole_viable : ∀ endLine ts rest d, StuckSole endLine ts rest d → ∃ more n, parse (ts ++ more) = .ok n := by
    intro endLine ts rest d hstuck
    obtain ⟨more, n, hn⟩ := hstuck.viable
    refine ⟨more, n, (parse_eq_ok_iff _ n).2 ?_⟩
    rwa [liveTokens_eq_self _ fun t ht => (hn.usable t ht).not_isEnd]
  have program_viable : ∀ endLine ts rest d, StuckProgram endLine ts rest d →
      ∃ more p, parseProgram (ts ++ more) = .ok p := by
    intro endLine ts rest d hstuck
    obtain ⟨more, body, hbody⟩ := hstuck.viable
    refine ⟨more, ⟨body⟩, parseProgram_of_statements _ body ?_⟩
    rwa [liveTokens_eq_self _ fun t ht => (hbody.usable t ht).not_isEnd]
  refine ⟨fun h => ⟨?_, fun next more => ?_⟩, fun h => ⟨?_, fun next more => ?_⟩⟩
  · exact Rule.earliest (fun _ => Rule.breaks_soleStatement) sole_viable h
  · exact Rule.final (fun _ => Rule.breaks_soleStatement) (fun _ e' _ _ _ rest' _ h => h.of_cons e' rest')
      (fun tokens d ts rest hlive h => (parse_eq_error_iff tokens d).2 ⟨ts, rest, hlive, h⟩) h next more
  · exact Rule.earliest (fun _ => Rule.breaks_program) program_viable h
  · exact Rule.final (fun _ => Rule.breaks_program) (fun _ e' _ _ _ rest' _ h => h.of_cons e' rest')
      (fun tokens d ts rest hlive h => (parseProgram_eq_error_iff tokens d).2 ⟨ts, rest, hlive, h⟩) h next more

/-- Two statements, the second of which breaks off inside a parenthesis. -/
theorem refuse_earliest_of_unclosed :
    (parse (tokenize "x = 1\n(y 2") = .error ⟨.unexpectedToken "(", 2, some 0⟩ ∧
      ∀ more, parse ((liveTokens (tokenize "x = 1\n(y 2")).take 4 ++ more) = .error ⟨.unexpectedToken "(", 2, some 0⟩) ∧
    (parseProgram (tokenize "x = 1\n(y 2") = .error ⟨.unmatchedParenthesis "(", 2, some 0⟩ ∧
      (∃ more p, parseProgram ((liveTokens (tokenize "x = 1\n(y 2")).take 5 ++ more) = .ok p) ∧
      ∀ more, parseProgram ((liveTokens (tokenize "x = 1\n(y 2")).take 6 ++ more) =
        .error ⟨.unmatchedParenthesis "(", 2, some 0⟩) := by
  have hsole : parse (tokenize "x = 1\n(y 2") = .error ⟨.unexpectedToken "(", 2, some 0⟩ := by decide +kernel
  have hprogram : parseProgram (tokenize "x = 1\n(y 2") = .error ⟨.unmatchedParenthesis "(", 2, some 0⟩ := by
    decide +kernel
  have htaken : Rule.soleStatement.taken (tokenize "x = 1\n(y 2") = 3 := by decide +kernel
  have htaken' : Rule.program.taken (tokenize "x = 1\n(y 2") = 5 := by decide +kernel
  obtain ⟨-, hfinal⟩ := (parse_and_parseProgram_refuse_earliest _ _).1 hsole
  obtain ⟨hearliest, hfinal'⟩ := (parse_and_parseProgram_refuse_earliest _ _).2 hprogram
  rw [htaken] at hfinal
  rw [htaken'] at hearliest hfinal'
  exact ⟨⟨hsole, hfinal (by decide +kernel)⟩, hprogram, hearliest, hfinal' (by decide +kernel)⟩

end ExprLang
