import Mathlib.Data.Nat.Nth
import ExprLang.Proofs.Grammar.Blame
import ExprLang.Proofs.Parser.Refusal

/-!
# Only the order of lines counts

A parser compares lines and copies them, and it copies columns. So tokens may be moved to any lines in the same order:
the same is read, and a refusal moves with its token.

* `extend`, `exists_strictMono_comp` : a map that grows on finitely many lines, by two maps that grow on all of them;
* `liveTokens_map_move`, `endLine_map_move` : what a parser sees of tokens that move;
* `exists_line_of_error` : a refusal of some tokens stands on the line of one of them;
* `parse_and_parseProgram_move_of_strictMono` : tokens that move by a map that grows on all lines;
* `map_move_map_move`, `mapError_move_move` : tokens and refusals that move by way of numbered lines;
* `parse_and_parseProgram_move` : tokens that move by a map that grows on their lines.
-/

namespace ExprLang

open Grammar (Blamed)

/-! ## Maps of lines -/

/-- The map `f` up to `top`, and above all of `bound` beyond. -/
def extend (f : Nat → Nat) (top bound x : Nat) : Nat := if x ≤ top then f x else bound + x

section

variable {f : Nat → Nat} {s : Set Nat}

theorem strictMonoOn_extend (hf : StrictMonoOn f s) {top bound : Nat} (htop : ∀ x ∈ s, x ≤ top)
    (hbound : ∀ x ∈ s, f x ≤ bound) : StrictMonoOn (extend f top bound) {x | x ∈ s ∨ top < x} := by
  rintro x hx y hy hlt
  unfold extend
  rcases hx with hx | hx <;> rcases hy with hy | hy
  · rw [if_pos (htop x hx), if_pos (htop y hy)]
    exact hf hx hy hlt
  · rw [if_pos (htop x hx), if_neg (Nat.not_le_of_lt hy)]
    have := hbound x hx
    omega
  · have := htop y hy
    omega
  · rw [if_neg (Nat.not_le_of_lt hx), if_neg (Nat.not_le_of_lt hy)]
    omega

/-- A map that grows on finitely many numbers: they are the values of a map that grows everywhere, and so are their
images, at the same places. -/
theorem exists_strictMono_comp (hf : StrictMonoOn f s) (finite : s.Finite) :
    ∃ r g h : Nat → Nat, StrictMono g ∧ StrictMono h ∧ ∀ x ∈ s, g (r x) = x ∧ h (r x) = f x := by
  classical
  obtain ⟨top, htop⟩ := finite.bddAbove
  obtain ⟨bound, hbound⟩ := (finite.image f).bddAbove
  have hextend := strictMonoOn_extend hf htop fun x hx => hbound (Set.mem_image_of_mem f hx)
  have infinite : {x | x ∈ s ∨ top < x}.Infinite :=
    Set.infinite_of_forall_exists_gt fun a => ⟨max a top + 1, Or.inr (by omega), by omega⟩
  have hnth := Nat.nth_strictMono infinite
  refine ⟨Nat.count fun x => x ∈ s ∨ top < x, Nat.nth fun x => x ∈ s ∨ top < x,
    fun n => extend f top bound (Nat.nth (fun x => x ∈ s ∨ top < x) n), hnth, fun m n hlt => ?_, fun x hx => ?_⟩
  · exact hextend (Nat.nth_mem_of_infinite infinite m) (Nat.nth_mem_of_infinite infinite n) (hnth hlt)
  · have hcount := Nat.nth_count (p := fun x => x ∈ s ∨ top < x) (Or.inl hx)
    refine ⟨hcount, ?_⟩
    show extend f top bound (Nat.nth _ _) = f x
    rw [hcount, extend, if_pos (htop hx)]

end

/-! ## What a parser sees -/

section

variable (f : Nat → Nat) (c : Nat → Nat → Nat) (tokens : List Token)

theorem liveTokens_map_move :
    liveTokens (tokens.map (Token.move f c)) = (liveTokens tokens).map (Token.move f c) := by
  rw [liveTokens, List.takeWhile_map]
  rfl

theorem endLine_map_move (nonempty : tokens ≠ []) :
    (Parser.ofTokens (tokens.map (Token.move f c))).endLine = f (Parser.ofTokens tokens).endLine := by
  have hlast := List.getLast?_eq_some_getLast nonempty
  have hend : Token.isEnd ∘ Token.move f c = Token.isEnd := rfl
  rw [Parser.endLine_ofTokens, Parser.endLine_ofTokens, List.find?_map, hend, List.getLast?_map, ← Option.map_or, hlast]
  cases tokens.find? Token.isEnd <;> rfl

end

section

variable {tokens : List Token} (nonempty : tokens ≠ [])
include nonempty

theorem exists_line_of_end : ∃ t ∈ tokens, t.line = (Parser.ofTokens tokens).endLine := by
  cases hfind : tokens.find? Token.isEnd with
  | none =>
    refine ⟨tokens.getLast nonempty, List.getLast_mem nonempty, ?_⟩
    rw [Parser.endLine_ofTokens, hfind, List.getLast?_eq_some_getLast nonempty]
    rfl
  | some z =>
    refine ⟨z, List.mem_of_find?_eq_some hfind, ?_⟩
    rw [Parser.endLine_ofTokens, hfind]
    rfl

theorem exists_line_of_blamed {ts rest : List Token} {d : Diagnostic} (live : liveTokens tokens = ts ++ rest)
    (blamed : Blamed (Parser.ofTokens tokens).endLine ts rest d) : ∃ t ∈ tokens, t.line = d.line := by
  rcases blamed.exists_line with hline | ⟨t, ht, hline⟩
  · rw [hline]
    exact exists_line_of_end nonempty
  · rw [← live] at ht
    exact ⟨t, (List.takeWhile_prefix _).subset ht, hline⟩

/-- A refusal of some tokens stands on the line of one of them. -/
theorem exists_line_of_error :
    (∀ d, parse tokens = .error d → ∃ t ∈ tokens, t.line = d.line) ∧
      ∀ d, parseProgram tokens = .error d → ∃ t ∈ tokens, t.line = d.line := by
  constructor
  · intro d h
    obtain ⟨ts, rest, live, stuck⟩ := (parse_eq_error_iff tokens d).1 h
    exact exists_line_of_blamed nonempty live stuck.blamed
  · intro d h
    obtain ⟨ts, rest, live, stuck⟩ := (parseProgram_eq_error_iff tokens d).1 h
    exact exists_line_of_blamed nonempty live stuck.blamed

/-! ## Tokens that move -/

/-- Tokens on lines that all move in order are read alike, and a refusal moves with them. -/
theorem parse_and_parseProgram_move_of_strictMono {f : Nat → Nat} (hf : StrictMono f) (c : Nat → Nat → Nat) :
    parse (tokens.map (Token.move f c)) = (parse tokens).mapError (Diagnostic.move f c) ∧
      parseProgram (tokens.map (Token.move f c)) = (parseProgram tokens).mapError (Diagnostic.move f c) := by
  have hlive := liveTokens_map_move f c tokens
  have hend := endLine_map_move f c tokens nonempty
  constructor
  · refine parse_eq_mapError (fun n statement => ?_) fun ts rest d hts stuck =>
      ⟨ts.map (Token.move f c), rest.map (Token.move f c), ?_, ?_⟩
    · rw [hlive]
      exact statement.keeps (Grammar.keeps_move hf c 0 _)
    · rw [hlive, hts, List.map_append]
    · rw [hend]
      exact stuck.move hf c
  · refine parseProgram_eq_mapError (fun body statements => ?_) fun ts rest d hts stuck =>
      ⟨ts.map (Token.move f c), rest.map (Token.move f c), ?_, ?_⟩
    · rw [hlive]
      exact statements.keeps (Grammar.keeps_move hf c 0 _)
    · rw [hlive, hts, List.map_append]
    · rw [hend]
      exact stuck.move hf c

end

/-! ## Lines that are numbered first -/

section

variable {r g h f : Nat → Nat} (c : Nat → Nat → Nat)

theorem Token.move_move (t : Token) (back : g (r t.line) = t.line) (line : h (r t.line) = f t.line) :
    (t.move r fun _ column => column).move h (fun line column => c (g line) column) = t.move f c := by
  show ({ t with line := h (r t.line), column := c (g (r t.line)) t.column } : Token) = _
  rw [back, line]
  rfl

theorem map_move_map_move {tokens : List Token}
    (lines : ∀ t ∈ tokens, g (r t.line) = t.line ∧ h (r t.line) = f t.line) :
    (tokens.map (Token.move r fun _ column => column)).map (Token.move h fun line column => c (g line) column) =
      tokens.map (Token.move f c) := by
  rw [List.map_map]
  exact List.map_congr_left fun t ht => t.move_move c (lines t ht).1 (lines t ht).2

/-- A refusal that moves by `g` and then by `f` moves as it does by `h`, if its line does. -/
theorem mapError_move_move {α : Type} {result : Except Diagnostic α}
    (line : ∀ d, result = .error d → h d.line = f (g d.line)) :
    (result.mapError (Diagnostic.move g fun _ column => column)).mapError (Diagnostic.move f c) =
      result.mapError (Diagnostic.move h fun line column => c (g line) column) := by
  cases result with
  | ok a => rfl
  | error d =>
    have hmove : (d.move g fun _ column => column).move f c = d.move h fun line column => c (g line) column := by
      simp only [Diagnostic.move, line d rfl, Option.map_map]
      rfl
    exact congrArg Except.error hmove

end

/-- Lines count by their order alone, and columns do not count. If the lines of some tokens are moved by a map that
grows on them, and their columns in any way, then the same is read, or the same is refused where the token or the end
was moved to. -/
theorem parse_and_parseProgram_move (tokens : List Token) (f : Nat → Nat) (c : Nat → Nat → Nat) (nonempty : tokens ≠ [])
    (increasing : StrictMonoOn f {line | ∃ t ∈ tokens, t.line = line}) :
    parse (tokens.map (Token.move f c)) = (parse tokens).mapError (Diagnostic.move f c) ∧
      parseProgram (tokens.map (Token.move f c)) = (parseProgram tokens).mapError (Diagnostic.move f c) := by
  have finite : {line | ∃ t ∈ tokens, t.line = line}.Finite := (List.finite_toSet tokens).image _
  obtain ⟨r, g, h, hg, hh, hlines⟩ := exists_strictMono_comp increasing finite
  have hback : (tokens.map (Token.move r fun _ column => column)).map (Token.move g fun _ column => column) =
      tokens.map (Token.move id fun _ column => column) :=
    map_move_map_move (fun _ column => column) fun t ht =>
      ⟨(hlines t.line ⟨t, ht, rfl⟩).1, (hlines t.line ⟨t, ht, rfl⟩).1⟩
  have hmoved := map_move_map_move c fun t ht => hlines t.line ⟨t, ht, rfl⟩
  -- both lists come from the one in which the lines are numbered
  have hnonempty : tokens.map (Token.move r fun _ column => column) ≠ [] := by rwa [Ne, List.map_eq_nil_iff]
  have hline : ∀ d : Diagnostic, (∃ u ∈ tokens.map (Token.move r fun _ column => column), u.line = d.line) →
      h d.line = f (g d.line) := by
    rintro d ⟨u, hu, hd⟩
    obtain ⟨t, ht, rfl⟩ := List.mem_map.1 hu
    obtain ⟨hgt, hht⟩ := hlines t.line ⟨t, ht, rfl⟩
    rw [← hd]
    show h (r t.line) = f (g (r t.line))
    rw [hht, hgt]
  obtain ⟨hparse, hprogram⟩ := parse_and_parseProgram_move_of_strictMono hnonempty hg fun _ column => column
  obtain ⟨hparse', hprogram'⟩ :=
    parse_and_parseProgram_move_of_strictMono hnonempty hh fun line column => c (g line) column
  obtain ⟨herror, herror'⟩ := exists_line_of_error hnonempty
  rw [hback, show Token.move id (fun _ column => column) = id from rfl, List.map_id] at hparse hprogram
  rw [hmoved] at hparse' hprogram'
  rw [hparse, hparse', hprogram, hprogram']
  exact ⟨(mapError_move_move c fun d hd => hline d (herror d hd)).symm,
    (mapError_move_move c fun d hd => hline d (herror' d hd)).symm⟩

/-- Two statements on the lines 2 and 7 are moved to the lines 0 and 2, and their columns to the right: both are read,
and as one statement they are refused at the second one. -/
theorem parse_and_parseProgram_move_of_two_lines :
    tokenize "\nx = 1\n\n\n\n\ny = x" ≠ [] ∧
      StrictMonoOn (· / 3) {line | ∃ t ∈ tokenize "\nx = 1\n\n\n\n\ny = x", t.line = line} ∧
      parse ((tokenize "\nx = 1\n\n\n\n\ny = x").map (Token.move (· / 3) fun line column => 10 * line + column)) =
        .error ⟨.unexpectedToken "y", 2, some 70⟩ ∧
      parseProgram ((tokenize "\nx = 1\n\n\n\n\ny = x").map
          (Token.move (· / 3) fun line column => 10 * line + column)) =
        .ok ⟨[.assign "x" (.integer 1), .assign "y" (.var "x")]⟩ := by
  have nonempty : tokenize "\nx = 1\n\n\n\n\ny = x" ≠ [] := by decide +kernel
  have hlines : ∀ t ∈ tokenize "\nx = 1\n\n\n\n\ny = x", t.line = 2 ∨ t.line = 7 := by decide +kernel
  have increasing : StrictMonoOn (· / 3) {line | ∃ t ∈ tokenize "\nx = 1\n\n\n\n\ny = x", t.line = line} := by
    rintro _ ⟨t, ht, rfl⟩ _ ⟨u, hu, rfl⟩ hlt
    have := hlines t ht
    have := hlines u hu
    show t.line / 3 < u.line / 3
    omega
  obtain ⟨hparse, hprogram⟩ :=
    parse_and_parseProgram_move _ (· / 3) (fun line column => 10 * line + column) nonempty increasing
  refine ⟨nonempty, increasing, hparse.trans ?_, hprogram.trans ?_⟩
  · rw [show parse (tokenize "\nx = 1\n\n\n\n\ny = x") = .error ⟨.unexpectedToken "y", 7, some 0⟩ by decide +kernel]
    rfl
  · rw [show parseProgram (tokenize "\nx = 1\n\n\n\n\ny = x") =
      .ok ⟨[.assign "x" (.integer 1), .assign "y" (.var "x")]⟩ by decide +kernel]
    rfl

end ExprLang
