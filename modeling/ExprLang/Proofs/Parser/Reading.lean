import ExprLang.Proofs.Grammar
import ExprLang.Proofs.Parser.Run

/-!
# What the rules read

A rule that succeeds has taken tokens that derive its result, and has moved past these tokens and nothing else.

* `Rule.Reads` : the tokens that a success of a rule has taken stand in a relation to its result;
* `Rule.reads_factorAt`, `Rule.reads_termAt`, `Rule.reads_expressionAt` : the three levels of an expression;
* `Rule.Reads.forward` : such a rule gives no token back.
-/

namespace ExprLang

namespace Rule

open Grammar (Level Derives Statement Joins)

/-- Inside `depth` parentheses a success of the rule takes tokens that stand for its result in the sense of
`relation`, and moves past them. -/
def Reads (depth : Nat) (relation : List Token → Node → Prop) (rule : Rule Node) : Prop :=
  ∀ p n q, p.depth = depth → rule.run p = .ok n q →
    ∃ ts, p.ahead = ts ++ q.ahead ∧ relation ts n ∧ q = p.past ts

variable {depth : Nat} {lookup : String → Option BinOp} {operand : Rule Node} {inner outer : List Token → Node → Prop}

/-- The operands and operators of a chain, after the tokens `ts` that stand for `left`. -/
theorem reads_chainFrom (operand_reads : Reads depth inner operand)
    (join : ∀ ts us o op l r, outer ts l → o.kind = .operator → lookup o.text = some op → Joins depth ts o →
      inner us r → outer (ts ++ o :: us) (.binary op l r)) (outer_ne_nil : ∀ ts n, outer ts n → ts ≠ [])
    (bound : Nat) (p₀ q : Parser) (left n : Node) (ts rest : List Token) (hd : p₀.depth = depth)
    (hp₀ : p₀.ahead = ts ++ rest) (hleft : outer ts left)
    (h : (chainFrom lookup operand bound left).run (p₀.past ts) = .ok n q) :
    ∃ us, rest = us ++ q.ahead ∧ outer (ts ++ us) n ∧ q = p₀.past (ts ++ us) := by
  induction bound generalizing left ts rest with
  | zero =>
    cases h
    exact ⟨[], (Parser.ahead_past hp₀).symm, by rwa [List.append_nil], by rw [List.append_nil]⟩
  | succ bound ih =>
    cases hop : (p₀.past ts).operator? lookup with
    | none =>
      rw [run_chainFrom_of_none _ _ _ _ _ hop] at h
      cases h
      exact ⟨[], (Parser.ahead_past hp₀).symm, by rwa [List.append_nil], by rw [List.append_nil]⟩
    | some op =>
      obtain ⟨o, rest', hp, kind, continues, spelling⟩ := Parser.operator?_eq_some _ lookup op hop
      rw [run_chainFrom_succ _ _ _ _ _ _ _ _ hop hp, Parser.after_past] at h
      rw [Parser.ahead_past hp₀] at hp
      subst hp
      obtain ⟨right, r, hright, hn⟩ := run_bind_eq_ok _ _ _ _ _ h
      obtain ⟨us, hus, hinner, hr⟩ := operand_reads (p₀.past (ts ++ [o])) _ _ hd hright
      rw [List.append_cons] at hp₀
      rw [Parser.ahead_past hp₀] at hus
      have joins : Joins depth ts o :=
        hd ▸ (Parser.continues_past_iff p₀ ts (outer_ne_nil _ _ hleft) o).1 continues
      have houter := join ts us o op left right hleft kind spelling joins hinner
      rw [Parser.past_past, List.append_assoc, List.singleton_append] at hr
      rw [hr] at hn
      rw [hus, ← List.append_assoc, List.append_assoc ts, List.singleton_append] at hp₀
      obtain ⟨vs, hvs, hdone, hq⟩ := ih _ _ _ hp₀ houter hn
      refine ⟨o :: us ++ vs, ?_, ?_, ?_⟩
      · rw [hus, hvs, List.cons_append, List.cons_append, List.append_assoc]
      · rwa [List.append_assoc] at hdone
      · rwa [List.append_assoc] at hq

theorem reads_chain (operand_reads : Reads depth inner operand) (single : ∀ ts n, inner ts n → outer ts n)
    (join : ∀ ts us o op l r, outer ts l → o.kind = .operator → lookup o.text = some op → Joins depth ts o →
      inner us r → outer (ts ++ o :: us) (.binary op l r)) (outer_ne_nil : ∀ ts n, outer ts n → ts ≠ []) :
    Reads depth outer (chain lookup operand) := by
  intro p n q hd h
  rw [chain_eq] at h
  obtain ⟨left, r, hleft, hn⟩ := run_bind_eq_ok _ _ _ _ _ h
  obtain ⟨ts, hts, hinner, hr⟩ := operand_reads _ _ _ hd hleft
  rw [hr] at hn
  obtain ⟨us, hus, hdone, hq⟩ :=
    reads_chainFrom operand_reads join outer_ne_nil _ p q left n ts _ hd hts (single _ _ hinner) hn
  exact ⟨ts ++ us, by rw [hts, hus, List.append_assoc], hdone, hq⟩

/-! ## The three levels -/

theorem reads_factorWith (parenthesis : Token → Rule Node)
    (group_reads : ∀ p n q o rest, p.depth = depth → p.ahead = o :: rest → o.isOperator "(" = true →
      (parenthesis o).run p = .ok n q →
      ∃ ts, p.ahead = ts ++ q.ahead ∧ Derives .factor depth ts n ∧ q = p.past ts) :
    Reads depth (Derives .factor depth) (factorWith parenthesis) := by
  intro p n q hd h
  obtain ⟨t, rest, hp, ⟨i, kind, value, rfl, rfl⟩ | ⟨kind, rfl, rfl⟩ | ⟨opening, hrun⟩⟩ :=
    run_factorWith_eq_ok _ _ _ _ h
  · exact ⟨[t], by rw [Parser.ahead_after hp]; exact hp, .integer kind value, rfl⟩
  · exact ⟨[t], by rw [Parser.ahead_after hp]; exact hp, .name kind, rfl⟩
  · exact group_reads p n q t rest hd hp opening hrun

theorem reads_term (h : Reads depth (Derives .factor depth) operand) :
    Reads depth (Derives .term depth) (chain BinOp.multiplicative? operand) :=
  reads_chain h (fun _ _ => .factor) (fun _ _ _ _ _ _ => .product) fun _ _ => Derives.ne_nil

theorem reads_sum (h : Reads depth (Derives .term depth) operand) :
    Reads depth (Derives .expression depth) (chain BinOp.additive? operand) :=
  reads_chain h (fun _ _ => .term) (fun _ _ _ _ _ _ => .sum) fun _ _ => Derives.ne_nil

theorem reads_group (room : depth < maxNesting) (rule : Rule Node)
    (h : Reads (depth + 1) (Derives .expression (depth + 1)) rule) (p q : Parser) (n : Node) (o : Token)
    (rest : List Token) (hd : p.depth = depth) (hp : p.ahead = o :: rest) (opening : o.isOperator "(" = true)
    (hrun : (group rule o).run p = .ok n q) :
    ∃ ts, p.ahead = ts ++ q.ahead ∧ Derives .factor depth ts n ∧ q = p.past ts := by
  rw [run_group rule p o rest hp] at hrun
  obtain ⟨m, r, hr, hclose⟩ := run_bind_eq_ok _ _ _ _ _ hrun
  obtain ⟨ts, hts, inner, hpast⟩ := h _ _ _ (by rw [Parser.depth_opened, ← hd]; rfl) hr
  obtain ⟨c, rest', hc, closing, rfl, rfl⟩ := run_close_eq_ok _ _ _ _ _ hclose
  rw [Parser.ahead_opened, Parser.ahead_after hp, hc] at hts
  have hclosed : (r.closed.after c).ahead = rest' := Parser.ahead_after hc
  refine ⟨o :: (ts ++ [c]), ?_, .group room opening inner closing, ?_⟩
  · rw [hclosed, hp, hts, List.cons_append, List.append_assoc, List.singleton_append]
  · rw [hpast, Parser.past_opened, Parser.past_after, Parser.closed_opened, Parser.after_past]
    rfl

theorem reads_factorAt (levels : Nat) :
    ∀ depth, maxNesting - depth = levels → Reads depth (Derives .factor depth) (factorAt levels) := by
  induction levels with
  | zero =>
    intro depth _
    exact reads_factorWith _ fun p n q o rest _ _ _ h => by cases h
  | succ levels ih =>
    intro depth hdepth
    have hinner := reads_sum (reads_term (ih (depth + 1) (by omega)))
    exact reads_factorWith _ fun p n q o rest hd hp opening h =>
      reads_group (by omega) _ hinner p q n o rest hd hp opening h

theorem reads_termAt (levels depth : Nat) (h : maxNesting - depth = levels) :
    Reads depth (Derives .term depth) (termAt levels) :=
  reads_term (reads_factorAt levels depth h)

theorem reads_expressionAt (levels depth : Nat) (h : maxNesting - depth = levels) :
    Reads depth (Derives .expression depth) (expressionAt levels) :=
  reads_sum (reads_termAt levels depth h)

theorem Reads.forward {relation : List Token → Node → Prop} {rule : Rule Node} (h : Reads depth relation rule) :
    Forward depth rule := by
  intro p n q hd hrun
  obtain ⟨ts, hts, -, hq⟩ := h p n q hd hrun
  refine ⟨?_, ?_⟩
  · rw [hq, Parser.depth_past, hd]
  · rw [hts, List.length_append]
    omega

end Rule

end ExprLang
