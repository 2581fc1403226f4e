import ExprLang.Proofs.Parser.Account

/-!
# The rules of an expression read as far as they can

A factor, a term or an expression takes tokens that derive its result, and nothing longer at the front of the tokens
ahead derives anything. This holds wherever the parser stands, and however many parentheses a failure has left open.

* `Derives.lower` : a derivation inside fewer parentheses, under the same rule for lines;
* `Grammar.Level.GoesOn` : the operators that go on with a part of a level;
* `Derives.run_of_stop`, `Derives.length_le_of_run`, `Level.not_goesOn_of_run` : where the rule of a level ends;
* `Derives.goesOn_of_append` : a longer derivation goes on with an operator;
* `reads_longest_match` : the rules read the longest match.
-/

namespace ExprLang

namespace Grammar

open Rule

variable {level : Level} {depth : Nat} {ts us rest : List Token} {t : Token} {n m : Node} {p q : Parser}

/-! ## Depths with the same rule for lines -/

/-- Inside fewer parentheses a derivation has more room. The rule for lines stays the same if there are none or some of
them in both places. -/
theorem Derives.lower {depth' : Nat} (d : Derives level depth ts n) (hle : depth' ≤ depth)
    (inside : 0 < depth → 0 < depth') : Derives level depth' ts n := by
  induction d generalizing depth' with
  | integer kind value => exact .integer kind value
  | name kind => exact .name kind
  | group room opening _ closing ih =>
    exact .group (Nat.lt_of_le_of_lt hle room) opening (ih (Nat.succ_le_succ hle) fun _ => Nat.succ_pos _) closing
  | factor _ ih => exact .factor (ih hle inside)
  | product _ kind spelling joins _ ihl ihr =>
    exact .product (ihl hle inside) kind spelling (joins.imp_left inside) (ihr hle inside)
  | term _ ih => exact .term (ih hle inside)
  | sum _ kind spelling joins _ ihl ihr =>
    exact .sum (ihl hle inside) kind spelling (joins.imp_left inside) (ihr hle inside)

/-- Whether the operator `o` goes on with the tokens `ts` of a part of the level. Nothing goes on with a factor, and a
sign does not go on with a term. -/
def Level.GoesOn : Level → Nat → List Token → Token → Prop
  | .factor, _, _, _ => False
  | .term, depth, ts, o =>
    o.kind = .operator ∧ (∃ op, BinOp.multiplicative? o.text = some op) ∧ Joins depth ts o
  | .expression, depth, ts, o => Grammar.GoesOn depth ts o

theorem Level.GoesOn.of_inside {depth' : Nat} (h : level.GoesOn depth ts t) (inside : 0 < depth → 0 < depth') :
    level.GoesOn depth' ts t := by
  cases level with
  | factor => exact h
  | term | expression => exact ⟨h.1, h.2.1, h.2.2.imp_left inside⟩

/-! ## Where a rule ends -/

/-- A rule ends after a derivation if no operator goes on with it. -/
theorem Derives.run_of_stop (d : Derives level depth ts n) (hd : p.depth = depth) (hp : p.ahead = ts ++ rest)
    (stop : ∀ t ∈ rest.head?, ¬ level.GoesOn depth ts t) : (level.rule p.levels).run p = .ok n (p.past ts) := by
  cases level with
  | factor => exact d.runs p rest hd hp
  | term =>
    refine (d.runs p rest hd hp).trans (run_more_of_none _ _ _ _ ?_)
    cases hop : (p.past ts).operator? BinOp.multiplicative? with
    | none => rfl
    | some op =>
      obtain ⟨o, us, hrest, kind, continues, spelling⟩ := Parser.operator?_eq_some _ _ op hop
      rw [Parser.ahead_past hp] at hrest
      have joins := (Parser.continues_past_iff p ts d.ne_nil o).1 continues
      exact absurd ⟨kind, ⟨op, spelling⟩, hd ▸ joins⟩ (stop o (by rw [hrest]; rfl))
  | expression => exact run_expressionAt_of_stop d p rest hd hp stop

/-- A rule does not end inside a derivation. -/
theorem Derives.length_le_of_run (d : Derives level depth ts n) (hd : p.depth = depth) (hp : p.ahead = ts ++ rest)
    (hrun : (level.rule p.levels).run p = .ok m q) : q.ahead.length ≤ rest.length := by
  have hfactor := forward_factorAt (p.past ts)
  have hterm := forward_termAt (p.past ts)
  have hrest : (p.past ts).ahead = rest := Parser.ahead_past hp
  rw [← hrest]
  cases level with
  | factor =>
    rw [show (Level.factor.rule p.levels).run p = _ from d.runs p rest hd hp] at hrun
    cases hrun
    exact Nat.le_refl _
  | term =>
    rw [show (Level.term.rule p.levels).run p = _ from d.runs p rest hd hp] at hrun
    exact (forward_more _ hfactor _ (p.past ts) m q rfl hrun).2
  | expression =>
    obtain ⟨wrap, last, -, hresume⟩ := d.runs p rest hd hp
    rw [show (Level.expression.rule p.levels).run p = _ from hresume] at hrun
    obtain ⟨term, r, hr, hm⟩ := run_bind_eq_ok _ _ _ _ _ hrun
    obtain ⟨hdr, hlr⟩ := forward_more _ hfactor _ (p.past ts) term r rfl hr
    exact Nat.le_trans (forward_more _ hterm _ r m q hdr hm).2 hlr

/-- A rule takes every operator that goes on with what it has read. -/
theorem Level.not_goesOn_of_run (d : Derives level depth ts n) (hd : p.depth = depth) (hp : p.ahead = ts ++ rest)
    (hrun : (level.rule p.levels).run p = .ok m q) (hq : q.ahead = rest) :
    ∀ t ∈ rest.head?, ¬ level.GoesOn depth ts t := by
  cases level with
  | factor => exact fun _ _ h => h
  | term =>
    rintro t ht ⟨kind, ⟨op, spelling⟩, joins⟩
    obtain ⟨rest, rfl⟩ : ∃ us, rest = t :: us := ⟨_, (List.cons_head?_tail ht).symm⟩
    have hfactor := forward_factorAt (p.past ts)
    have hnext : (p.past ts).ahead = t :: rest := Parser.ahead_past hp
    have hop := (operator?_past p ts rest t BinOp.multiplicative? hp d.ne_nil kind (hd ▸ joins)).trans spelling
    have hmore := run_more_of_some _ _ n (p.past ts) op t rest hfactor hop hnext
    rw [show (Level.term.rule p.levels).run p = _ from (d.runs p (t :: rest) hd hp).trans hmore] at hrun
    have hshort := (hfactor.bind (fun right => forward_more _ hfactor (.binary op n right))
      ((p.past ts).after t) m q rfl hrun).2
    rw [hq, Parser.ahead_after hnext] at hshort
    exact absurd hshort (Nat.not_succ_le_self rest.length)
  | expression => exact Rule.not_goesOn_of_run d hd hp hrun hq

/-! ## Longer derivations -/

/-- If more tokens derive a part of the level too, then the first of them is an operator that goes on. -/
theorem Derives.goesOn_of_append (d : Derives level depth ts n) (d' : Derives level depth (ts ++ t :: us) m) :
    level.GoesOn depth ts t := by
  by_contra hstop
  let p : Parser := { tokens := ts ++ t :: us, depth }
  have hp : p.ahead = ts ++ t :: us := liveTokens_eq_self _ fun u hu => (d'.usable u hu).not_isEnd
  have hrun := d.run_of_stop (p := p) rfl hp fun u hu => by
    cases hu
    exact hstop
  have hall : p.ahead = ts ++ t :: us ++ [] := by rw [hp, List.append_nil]
  have hle := d'.length_le_of_run rfl hall hrun
  rw [Parser.ahead_past hp] at hle
  exact absurd hle (Nat.not_succ_le_zero us.length)

/-! ## The rules -/

def Level.grammarRule : Level → GrammarRule
  | .factor => .factor
  | .term => .term
  | .expression => .expression

theorem Level.run_grammarRule (level : Level) (p : Parser) :
    level.grammarRule.rule.run p = (level.rule p.levels).run p := by
  cases level <;> rfl

theorem Level.reads_rule (level : Level) (p : Parser) :
    Reads p.depth (Derives level p.depth) (level.rule p.levels) := by
  cases level with
  | factor => exact reads_factorAt _ _ rfl
  | term => exact reads_termAt _ _ rfl
  | expression => exact reads_expressionAt _ _ rfl

end Grammar

open Grammar (Level Derives)

/-- A factor, a term or an expression that is read derives its result, and no longer part of the tokens ahead derives
anything on its level, as long as the rule for lines is that of the parser: outside parentheses operators have to stand
on the line of the token before them or above, and inside they do not. -/
theorem reads_longest_match (level : Level) (p q : Parser) (n : Node) (h : level.grammarRule.rule.run p = .ok n q) :
    ∃ ts, p.ahead = ts ++ q.ahead ∧ q.place = p.place + ts.length ∧ Derives level p.depth ts n ∧
      ∀ us rest m depth, p.ahead = us ++ rest → (0 < depth ↔ 0 < p.depth) → Derives level depth us m →
        us.length ≤ ts.length := by
  rw [level.run_grammarRule] at h
  obtain ⟨ts, hts, derives, hpast⟩ := level.reads_rule p p n q rfl h
  have hplace : q.place = p.place + ts.length := by rw [hpast, Parser.place_past]
  refine ⟨ts, hts, hplace, derives, fun us rest m depth hus inside derives' => Nat.le_of_not_lt fun hlong => ?_⟩
  obtain ⟨vs, rfl⟩ : ts <+: us :=
    List.prefix_of_prefix_length_le ⟨q.ahead, hts.symm⟩ ⟨rest, hus.symm⟩ (Nat.le_of_lt hlong)
  have hahead : q.ahead = vs ++ rest := by
    rw [hts, List.append_assoc] at hus
    exact List.append_cancel_left hus
  obtain ⟨t, vs, rfl⟩ : ∃ t us, vs = t :: us := by
    refine List.exists_cons_of_ne_nil fun hnil => ?_
    rw [hnil, List.append_nil] at hlong
    exact Nat.lt_irrefl _ hlong
  -- both derivations fit inside the smaller number of parentheses
  have lower := derives.lower (Nat.min_le_right depth p.depth) (by omega)
  have lower' := derives'.lower (Nat.min_le_left depth p.depth) (by omega)
  have hinside : 0 < min depth p.depth → 0 < p.depth := by omega
  have hgoes := (lower.goesOn_of_append lower').of_inside hinside
  refine Level.not_goesOn_of_run derives rfl hts h rfl t ?_ hgoes
  rw [hahead]
  rfl

/-- After a failure that has left one parenthesis open, an expression goes on below the line on which it begins, and
ends before an operator that joins nothing. -/
theorem longest_match_after_unclosed :
    ∃ p q, p = (Parser.ofTokens (tokenize "((1 x\n* y == 2")).performAll [.read .statement] ∧ p.depth = 1 ∧
      Level.expression.grammarRule.rule.run p = .ok (.binary .mul (.var "x") (.var "y")) q ∧ q.ahead.length = 2 ∧
      ∃ ts, p.ahead = ts ++ q.ahead ∧ q.place = p.place + ts.length ∧
        Derives .expression p.depth ts (.binary .mul (.var "x") (.var "y")) ∧
        ∀ us rest m depth, p.ahead = us ++ rest → (0 < depth ↔ 0 < p.depth) → Derives .expression depth us m →
          us.length ≤ ts.length := by
  let tokens : List Token := [⟨⟨1, 0⟩, .operator, "("⟩, ⟨⟨1, 1⟩, .operator, "("⟩, ⟨⟨1, 2⟩, .integerLiteral, "1"⟩,
    ⟨⟨1, 4⟩, .identifier, "x"⟩, ⟨⟨2, 0⟩, .operator, "*"⟩, ⟨⟨2, 2⟩, .identifier, "y"⟩, ⟨⟨2, 4⟩, .operator, "=="⟩,
    ⟨⟨2, 7⟩, .integerLiteral, "2"⟩, ⟨⟨2, 8⟩, .endOfFile, "EOF"⟩]
  have htokens : tokenize "((1 x\n* y == 2" = tokens := by decide +kernel
  have hp : ⟨tokens, 3, some 1, 1⟩ = (Parser.ofTokens tokens).performAll [.read .statement] := rfl
  have hrun : Level.expression.grammarRule.rule.run ⟨tokens, 3, some 1, 1⟩ =
      .ok (.binary .mul (.var "x") (.var "y")) ⟨tokens, 6, some 2, 1⟩ := rfl
  rw [htokens]
  exact ⟨_, _, hp, rfl, hrun, rfl, reads_longest_match .expression _ _ _ hrun⟩

end ExprLang
