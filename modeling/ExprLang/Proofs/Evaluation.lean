import ExprLang.Proofs.Parser.Acceptance
import ExprLang.Token.Scan

/-!
# Values of expressions

An expression without names has a value, unless a step of its computation leaves 64 bits or divides by zero. The value
is found in two ways: from the leaves of its tree to the root, and in one pass over its tokens with two stacks, one of
values and one of what still waits for a right operand.

* `NoValue`, `checked`, `BinOp.apply` : arithmetic in 64 bits;
* `Node.value` : the value of a tree;
* `Yard`, `Yard.step`, `Yard.evaluate` : the two stacks, and what they find for a list of tokens;
* `Yard.Settled`, `Yard.reduce_reduce` : what no further token of a level can change;
* `Grammar.Derives.reads` : the tokens of an expression put its value on the stack;
* `evaluate_eq_value` : both ways lead to the same value, or to the same failure.
-/

namespace ExprLang

/-! ## Arithmetic in 64 bits -/

/-- Why there is no value. -/
inductive NoValue where
  | overflow
  | divisionByZero
  | noNumber
  deriving DecidableEq, Repr

def checked (i : Int) : Except NoValue Int64 :=
  if Int64.minValue.toInt ≤ i ∧ i ≤ Int64.maxValue.toInt then .ok (Int64.ofInt i) else .error .overflow

/-- The result of an operation. A quotient is rounded towards zero. -/
def BinOp.apply : BinOp → Int64 → Int64 → Except NoValue Int64
  | add, a, b => checked (a.toInt + b.toInt)
  | sub, a, b => checked (a.toInt - b.toInt)
  | mul, a, b => checked (a.toInt * b.toInt)
  | div, a, b => if b = 0 then .error .divisionByZero else checked (a.toInt.tdiv b.toInt)

/-! ## The value of a tree -/

namespace Node

/-- The value of a tree, computed from the leaves to the root, the left operand first. -/
def value : Node → Except NoValue Int64
  | integer n => .ok n
  | var _ | assign _ _ => .error .noNumber
  | binary op l r => do op.apply (← l.value) (← r.value)

/-- Whether the tree holds neither a name nor an assignment. -/
def isNumeric : Node → Bool
  | integer _ => true
  | var _ | assign _ _ => false
  | binary _ l r => l.isNumeric && r.isNumeric

end Node

/-! ## Two stacks -/

def BinOp.strength : BinOp → Nat
  | add | sub => 0
  | mul | div => 1

/-- What waits on the second stack. -/
inductive Pending where
  | operator (op : BinOp)
  | parenthesis
  deriving DecidableEq, Repr

/-- The two stacks, the top of each first. -/
structure Yard where
  values : List Int64 := []
  pending : List Pending := []
  deriving DecidableEq, Repr

namespace Yard

def push (y : Yard) (n : Int64) : Yard := { y with values := n :: y.values }

def wait (y : Yard) (p : Pending) : Yard := { y with pending := p :: y.pending }

def reduceFrom (strength : Nat) : List Int64 → List Pending → Except NoValue Yard
  | values, .operator op :: pending =>
    if strength ≤ op.strength then
      match values with
      | b :: a :: values => do reduceFrom strength ((← op.apply a b) :: values) pending
      | _ => .error .noNumber
    else .ok ⟨values, .operator op :: pending⟩
  | values, pending => .ok ⟨values, pending⟩

/-- Applies the operators on top of the second stack that bind with at least the given strength. -/
def reduce (strength : Nat) (y : Yard) : Except NoValue Yard := reduceFrom strength y.values y.pending

def close (y : Yard) : Except NoValue Yard :=
  match y.pending with
  | .parenthesis :: pending => .ok { y with pending }
  | _ => .error .noNumber

/-- Reads one token: a value is put on its stack, an operator first applies those before it that bind as strongly or
more strongly, and a closing parenthesis applies all back to the opening one. -/
def step (y : Yard) (t : Token) : Except NoValue Yard :=
  match t.kind with
  | .integerLiteral =>
    match Numeral.int64? t.text with
    | some n => .ok (y.push n)
    | none => .error .noNumber
  | .operator =>
    if t.text = "(" then .ok (y.wait .parenthesis)
    else if t.text = ")" then do (← y.reduce 0).close
    else
      match (BinOp.additive? t.text).or (BinOp.multiplicative? t.text) with
      | some op => do return (← y.reduce op.strength).wait (.operator op)
      | none => .error .noNumber
  | _ => .error .noNumber

def read (y : Yard) (ts : List Token) : Except NoValue Yard := ts.foldlM step y

/-- The value that is left if nothing waits. -/
def result (y : Yard) : Except NoValue Int64 :=
  match y.values, y.pending with
  | [n], [] => .ok n
  | _, _ => .error .noNumber

/-- The value of a list of tokens, found in one pass. -/
def evaluate (ts : List Token) : Except NoValue Int64 := do
  let y ← read {} ts
  (← y.reduce 0).result

theorem read_cons (y : Yard) (t : Token) (ts : List Token) : y.read (t :: ts) = y.step t >>= fun y => y.read ts :=
  List.foldlM_cons

theorem read_append (y : Yard) (ts us : List Token) : y.read (ts ++ us) = y.read ts >>= fun y => y.read us :=
  List.foldlM_append

/-! ## Operators that wait -/

section

variable {strength : Nat} {y : Yard}

/-- Whether no operator on top of the second stack binds with the given strength, so that none would be applied. -/
def Settled (strength : Nat) (y : Yard) : Prop :=
  ∀ op, y.pending.head? = some (.operator op) → op.strength < strength

theorem Settled.reduce_eq (h : y.Settled strength) : y.reduce strength = .ok y := by
  obtain ⟨values, pending⟩ := y
  match pending, h with
  | [], _ => rfl
  | .parenthesis :: _, _ => rfl
  | .operator op :: _, h => exact if_neg (Nat.not_le_of_lt (h op rfl))

theorem Settled.mono {stronger : Nat} (h : y.Settled strength) (hle : strength ≤ stronger) : y.Settled stronger :=
  fun op hop => Nat.lt_of_lt_of_le (h op hop) hle

theorem Settled.push (h : y.Settled strength) (n : Int64) : (y.push n).Settled strength := h

theorem settled_wait_parenthesis (y : Yard) : (y.wait .parenthesis).Settled strength := by
  intro op hop
  cases hop

theorem settled_wait_operator {op : BinOp} (h : op.strength < strength) (y : Yard) :
    (y.wait (.operator op)).Settled strength := by
  intro op' hop
  cases hop
  exact h

/-- An operator on top with both its operands is applied. -/
theorem reduce_operation {op : BinOp} (h : strength ≤ op.strength) (y : Yard) (a b : Int64) :
    (((y.push a).wait (.operator op)).push b).reduce strength
      = op.apply a b >>= fun n => (y.push n).reduce strength :=
  if_pos h

/-- To apply the operators of more than one strength, the strongest may go first. -/
theorem reduce_reduce {stronger : Nat} (h : strength ≤ stronger) (y : Yard) :
    (y.reduce stronger >>= reduce strength) = y.reduce strength := by
  obtain ⟨values, pending⟩ := y
  show (reduceFrom stronger values pending >>= reduce strength) = reduceFrom strength values pending
  fun_induction reduceFrom stronger values pending with
  | case1 op pending hop b a values ih =>
    rw [bind_assoc, reduceFrom, if_pos (Nat.le_trans h hop)]
    exact bind_congr ih
  | case2 values op pending hop hfew =>
    rw [reduceFrom, if_pos (Nat.le_trans h hop)]
    · rfl
    · exact hfew
  | case3 => rfl
  | case4 => rfl

theorem bind_reduce_reduce {stronger : Nat} (h : strength ≤ stronger) (x : Except NoValue Yard) :
    (x >>= reduce stronger) >>= reduce strength = x >>= reduce strength := by
  rw [bind_assoc]
  exact bind_congr (reduce_reduce h)

end

/-! ## Tokens read -/

/-- Whether the tokens put the value of the tree on its stack, once the operators that bind with the given strength are
applied, and leave the rest alone. If there is no value, they fail alike. -/
def Reads (strength : Nat) (ts : List Token) (n : Node) : Prop :=
  ∀ y : Yard, y.Settled strength → (y.read ts >>= reduce strength) = n.value >>= fun v => pure (y.push v)

section

variable {strength : Nat} {ts us : List Token} {l n r : Node}

theorem Reads.weaken (h : Reads (strength + 1) ts n) : Reads strength ts n := by
  intro y settled
  have hle : strength ≤ strength + 1 := Nat.le_succ strength
  calc y.read ts >>= reduce strength
      = (y.read ts >>= reduce (strength + 1)) >>= reduce strength := (bind_reduce_reduce hle _).symm
    _ = n.value >>= fun v => (y.push v).reduce strength := by
        rw [h y (settled.mono hle), bind_assoc]
        rfl
    _ = n.value >>= fun v => pure (y.push v) := bind_congr fun v => (settled.push v).reduce_eq

/-- Two operands with an operator between them. -/
theorem Reads.join {o : Token} {op : BinOp} (hstrength : op.strength = strength) (left : Reads strength ts l)
    (middle : ∀ y : Yard, y.step o = y.reduce op.strength >>= fun y => pure (y.wait (.operator op)))
    (right : Reads (strength + 1) us r) : Reads strength (ts ++ o :: us) (.binary op l r) := by
  subst hstrength
  intro y settled
  let waiting (a : Int64) : Yard := (y.push a).wait (.operator op)
  have hleft : (y.read ts >>= fun y => y.step o) = l.value >>= fun a => pure (waiting a) := by
    calc y.read ts >>= (fun y => y.step o)
        = (y.read ts >>= reduce op.strength) >>= fun y => pure (y.wait (.operator op)) := by
          rw [bind_assoc]
          exact bind_congr middle
      _ = l.value >>= fun a => pure (waiting a) := by
          rw [left y settled, bind_assoc]
          rfl
  have hright : ∀ a, ((waiting a).read us >>= reduce op.strength)
      = r.value >>= fun b => op.apply a b >>= fun v => pure (y.push v) := by
    intro a
    have hle : op.strength ≤ op.strength + 1 := Nat.le_succ op.strength
    have hwaiting : (waiting a).Settled (op.strength + 1) := settled_wait_operator (Nat.lt_succ_self _) _
    calc (waiting a).read us >>= reduce op.strength
        = ((waiting a).read us >>= reduce (op.strength + 1)) >>= reduce op.strength := (bind_reduce_reduce hle _).symm
      _ = r.value >>= fun b => ((waiting a).push b).reduce op.strength := by
          rw [right _ hwaiting, bind_assoc]
          rfl
      _ = r.value >>= fun b => op.apply a b >>= fun v => pure (y.push v) := by
          refine bind_congr fun b => ?_
          rw [reduce_operation (Nat.le_refl _)]
          exact bind_congr fun v => (settled.push v).reduce_eq
  calc y.read (ts ++ o :: us) >>= reduce op.strength
      = (y.read ts >>= fun y => y.step o) >>= fun y => y.read us >>= reduce op.strength := by
        simp only [read_append, read_cons, bind_assoc]
    _ = l.value >>= fun a => r.value >>= fun b => op.apply a b >>= fun v => pure (y.push v) := by
        rw [hleft, bind_assoc]
        exact bind_congr hright
    _ = (Node.binary op l r).value >>= fun v => pure (y.push v) := by
        simp only [Node.value, bind_assoc]

/-- An expression in parentheses. Nothing before the opening one is touched. -/
theorem Reads.group {o c : Token} (opening : o.isOperator "(" = true) (inner : Reads 0 ts n)
    (closing : c.isOperator ")" = true) (y : Yard) :
    y.read (o :: (ts ++ [c])) = n.value >>= fun v => pure (y.push v) := by
  obtain ⟨hkind, htext⟩ := (Token.isOperator_iff _ _).1 opening
  obtain ⟨hkind', htext'⟩ := (Token.isOperator_iff _ _).1 closing
  have hopen : y.step o = pure (y.wait .parenthesis) := by
    simp only [step, hkind, htext, if_true]
    rfl
  have hclose : ∀ z : Yard, z.step c = z.reduce 0 >>= close := by
    intro z
    simp only [step, hkind', htext']
    rfl
  calc y.read (o :: (ts ++ [c]))
      = ((y.wait .parenthesis).read ts >>= reduce 0) >>= close := by
        rw [read_cons, hopen, pure_bind, read_append, bind_assoc]
        refine bind_congr fun z => ?_
        rw [read_cons, hclose]
        exact bind_pure _
    _ = n.value >>= fun v => pure (y.push v) := by
        rw [inner _ (settled_wait_parenthesis y), bind_assoc]
        rfl

/-- Tokens that put the value on its stack at once leave nothing to apply. -/
theorem reads_of_read (h : ∀ y : Yard, y.read ts = n.value >>= fun v => pure (y.push v)) : Reads strength ts n := by
  intro y settled
  rw [h, bind_assoc]
  exact bind_congr fun v => (settled.push v).reduce_eq

theorem step_operator {o : Token} {op : BinOp} (kind : o.kind = .operator)
    (spelling : (BinOp.additive? o.text).or (BinOp.multiplicative? o.text) = some op) (y : Yard) :
    y.step o = y.reduce op.strength >>= fun y => pure (y.wait (.operator op)) := by
  have hopen : o.text ≠ "(" := fun h => by rw [h] at spelling; cases spelling
  have hclose : o.text ≠ ")" := fun h => by rw [h] at spelling; cases spelling
  simp only [step, kind, if_neg hopen, if_neg hclose, spelling]

end

end Yard

/-! ## Expressions -/

theorem BinOp.strength_of_additive? (text : String) (op : BinOp) (h : additive? text = some op) : op.strength = 0 := by
  have hsymbol := symbol_of_additive? text op h
  cases op with
  | add | sub => rfl
  | mul | div => rw [← hsymbol] at h; cases h

theorem BinOp.strength_of_multiplicative? (text : String) (op : BinOp) (h : multiplicative? text = some op) :
    op.strength = 1 := by
  have hsymbol := symbol_of_multiplicative? text op h
  cases op with
  | mul | div => rfl
  | add | sub => rw [← hsymbol] at h; cases h

theorem checked_ne_noNumber (i : Int) : checked i ≠ .error .noNumber := by
  unfold checked
  split <;> exact nofun

theorem BinOp.apply_ne_noNumber (op : BinOp) (a b : Int64) : op.apply a b ≠ .error .noNumber := by
  cases op with
  | add | sub | mul => exact checked_ne_noNumber _
  | div =>
    show (if b = 0 then _ else _) ≠ _
    split
    · exact nofun
    · exact checked_ne_noNumber _

/-- A tree of integers has a value unless its computation goes wrong. -/
theorem Node.value_ne_noNumber (n : Node) (h : n.isNumeric = true) : n.value ≠ .error .noNumber := by
  induction n with
  | integer => exact nofun
  | var | assign => cases h
  | binary op l r ihl ihr =>
    obtain ⟨hl, hr⟩ := Bool.and_eq_true_iff.1 h
    specialize ihl hl
    specialize ihr hr
    rw [value]
    cases hvl : l.value with
    | error failure => rwa [hvl] at ihl
    | ok a =>
      cases hvr : r.value with
      | error failure => rwa [hvr] at ihr
      | ok b => exact op.apply_ne_noNumber a b

namespace Grammar

open Yard (Reads)

def Level.strength : Level → Nat
  | .expression => 0
  | .term => 1
  | .factor => 2

/-- The tokens of a part of an expression put its value on the stack. -/
theorem Derives.reads {level : Level} {depth : Nat} {ts : List Token} {n : Node} (d : Derives level depth ts n) :
    Reads level.strength ts n := by
  induction d with
  | @integer _ t i kind value =>
    refine Yard.reads_of_read fun y => ?_
    rw [Yard.read_cons, Yard.step, kind, value]
    rfl
  | @name _ t kind =>
    refine Yard.reads_of_read fun y => ?_
    rw [Yard.read_cons, Yard.step, kind]
    rfl
  | group _ opening _ closing ih => exact Yard.reads_of_read (ih.group opening closing)
  | factor _ ih | term _ ih => exact ih.weaken
  | @product _ ts us o op l r _ kind spelling _ _ ihl ihr =>
    have hadd : BinOp.additive? o.text = none := by
      cases hop : BinOp.additive? o.text with
      | none => rfl
      | some op' => rw [multiplicative?_eq_none _ _ hop] at spelling; cases spelling
    have hmiddle := Yard.step_operator kind (by rw [hadd, spelling]; rfl)
    exact Reads.join (BinOp.strength_of_multiplicative? _ _ spelling) ihl hmiddle ihr
  | @sum _ ts us o op l r _ kind spelling _ _ ihl ihr =>
    have hmiddle := Yard.step_operator kind (by rw [spelling]; rfl)
    exact Reads.join (BinOp.strength_of_additive? _ _ spelling) ihl hmiddle ihr

theorem Derives.evaluate_eq {depth : Nat} {ts : List Token} {n : Node} (d : Derives .expression depth ts n) :
    Yard.evaluate ts = n.value := by
  have settled : Yard.Settled 0 {} := fun _ h => by cases h
  have hread : (Yard.read {} ts >>= Yard.reduce 0) = n.value >>= fun v => pure (Yard.push {} v) := d.reads {} settled
  calc Yard.evaluate ts
      = (Yard.read {} ts >>= Yard.reduce 0) >>= Yard.result := (bind_assoc ..).symm
    _ = n.value >>= fun v => pure v := by
        rw [hread, bind_assoc]
        rfl
    _ = n.value := bind_pure _

theorem Statement.evaluate_eq {ts : List Token} {n : Node} (s : Statement ts n) (numeric : n.isNumeric = true) :
    Yard.evaluate ts = n.value := by
  cases s with
  | expression value => exact value.evaluate_eq
  | assignment => cases numeric

end Grammar

/-- If the tokens are one expression of integers, then one pass over them with two stacks finds the value of its tree, or
fails as its computation does: because a result does not fit in 64 bits, or because of a division by zero. -/
theorem evaluate_eq_value (tokens : List Token) (n : Node) (h : parse tokens = .ok n) (numeric : n.isNumeric = true) :
    Yard.evaluate (liveTokens tokens) = n.value ∧ n.value ≠ .error .noNumber :=
  ⟨((parse_eq_ok_iff tokens n).1 h).evaluate_eq numeric, n.value_ne_noNumber numeric⟩

/-- The quotient comes first, and its divisor is zero; the sum on the left would not fit in 64 bits. -/
theorem evaluate_eq_value_of_division_by_zero :
    parse (tokenize "9223372036854775807 + 1 / (2 * 3 - 6) - 4") = .ok (.binary .sub
      (.binary .add (.integer 9223372036854775807)
        (.binary .div (.integer 1) (.binary .sub (.binary .mul (.integer 2) (.integer 3)) (.integer 6))))
      (.integer 4)) ∧
    Yard.evaluate (liveTokens (tokenize "9223372036854775807 + 1 / (2 * 3 - 6) - 4")) = .error .divisionByZero := by
  have h : parse (tokenize "9223372036854775807 + 1 / (2 * 3 - 6) - 4") = .ok (.binary .sub
      (.binary .add (.integer 9223372036854775807)
        (.binary .div (.integer 1) (.binary .sub (.binary .mul (.integer 2) (.integer 3)) (.integer 6))))
      (.integer 4)) := by decide +kernel
  exact ⟨h, (evaluate_eq_value _ _ h rfl).1⟩

end ExprLang
