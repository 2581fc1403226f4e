import Mathlib.Data.List.Forall2
import Mathlib.Data.List.Induction
import ExprLang.Node.Text
import ExprLang.Proofs.Lexeme
import ExprLang.Proofs.Node.Leaves

/-!
# The outline of a program

The outline has one line for each node, in preorder. The line shows how deep the node is and what it is called, and the
name tells how many nodes stand right below it. So the lines of a tree end where the tree does, and an outline is that
of one program only.

* `Node.children`, `Node.caption` : the nodes right below a node, and what its line says, `preorder_eq`;
* `Node.at?`, `Node.among?` : the node at a place of a tree, or of a list of trees;
* `Node.Lists`, `Node.exists_lists` : the lines of an outline and the places of its nodes;
* `Node.Entry.IsPlain`, `Node.Entry.join_text_inj` : lines that can be told apart in a text;
* `Node.preorder_append_inj` : where the lines of a tree end;
* `outline_lines_and_outline_inj` : the lines of an outline, and that it determines the program.
-/

namespace ExprLang

namespace Node

/-- The nodes right below a node. The target of an assignment is one of them, as a name, before the value. -/
def children : Node → List Node
  | integer _ | var _ => []
  | binary _ l r => [l, r]
  | assign x v => [var x, v]

/-- What the line of the node says, apart from its depth. -/
def caption : Node → String
  | integer i => "Integer Node: " ++ Numeral.ofInt64 i
  | var x => "Variable Node: " ++ x
  | binary op _ _ => op.label
  | assign _ _ => "Assignment Node"

@[simp] theorem caption_integer (i : Int64) : (integer i).caption = "Integer Node: " ++ Numeral.ofInt64 i := rfl

@[simp] theorem caption_var (x : String) : (var x).caption = "Variable Node: " ++ x := rfl

@[simp] theorem caption_binary (op : BinOp) (l r : Node) : (binary op l r).caption = op.label := rfl

@[simp] theorem caption_assign (x : String) (v : Node) : (assign x v).caption = "Assignment Node" := rfl

theorem preorder_eq (n : Node) (depth : Nat) :
    n.preorder depth = ⟨depth, n.caption⟩ :: n.children.flatMap (preorder (depth + 1)) := by
  cases n <;> simp [preorder, children, nameEntry]

/-- What holds of a node if it holds of those right below it holds of all nodes. -/
theorem children_induction {motive : Node → Prop} (step : ∀ n, (∀ m ∈ n.children, motive m) → motive n) (n : Node) :
    motive n := by
  induction n with
  | integer | var => exact step _ (by simp [children])
  | binary op l r ihl ihr => exact step _ (by simp [children, ihl, ihr])
  | assign x v ih =>
    have hx : motive (var x) := step _ (by simp [children])
    exact step _ (by simp [children, hx, ih])

def initials : Node → List Char
  | integer _ => ['I', 'n']
  | var _ => ['V', 'a']
  | binary .add _ _ => ['A', 'd']
  | binary .sub _ _ => ['S', 'u']
  | binary .mul _ _ => ['M', 'u']
  | binary .div _ _ => ['D', 'i']
  | assign _ _ => ['A', 's']

theorem take_caption (n : Node) : n.caption.toList.take 2 = n.initials := by
  rcases n with i | x | ⟨_ | _ | _ | _, l, r⟩ | ⟨x, v⟩ <;> simp [initials, BinOp.label]

/-- The caption tells how many nodes are right below, and with these nodes it tells the node. -/
theorem caption_inj {n m : Node} (h : n.caption = m.caption) :
    n.children.length = m.children.length ∧ (n.children = m.children → n = m) := by
  -- the first two characters of a caption tell the kind of node and the operator
  have hinitials : n.initials = m.initials := by rw [← take_caption, h, take_caption]
  rcases n with i | x | ⟨_ | _ | _ | _, l, r⟩ | ⟨x, v⟩ <;> rcases m with j | y | ⟨_ | _ | _ | _, l', r'⟩ | ⟨y, w⟩ <;>
    first | (simp [initials] at hinitials; done) | simp [children]
  · simpa [Numeral.ofInt64_inj] using h
  · simpa using h

/-! ## Places -/

/-- The node at a place in a tree. Each number of the place tells which of the nodes right below comes next. -/
def at? (n : Node) : (place : List Nat) → Option Node
  | [] => some n
  | i :: place => n.children[i]?.bind fun m => m.at? place

/-- The node at a place in a list of trees. The first number of the place tells in which of them. -/
def among? (nodes : List Node) : (place : List Nat) → Option Node
  | [] => none
  | i :: place => nodes[i]?.bind (at? · place)

/-- `Lists node? depth places entries` : `places` are the places of all nodes that `node?` finds, in preorder, and
`entries` are the lines of these nodes. -/
structure Lists (node? : List Nat → Option Node) (depth : List Nat → Nat) (places : List (List Nat))
    (entries : List Entry) : Prop where
  ascending : places.Pairwise (List.Lex (· < ·))
  complete : ∀ place, place ∈ places ↔ ∃ n, node? place = some n
  faithful : List.Forall₂ (fun place e => ∃ n, node? place = some n ∧ e = ⟨depth place, n.caption⟩) places entries

section

variable {nodes : List Node} {n m : Node} {place : List Nat}

theorem exists_cons_of_among? (h : among? nodes place = some m) :
    ∃ i rest k, place = i :: rest ∧ nodes[i]? = some k ∧ k.at? rest = some m := by
  cases place with
  | nil => cases h
  | cons i rest =>
    obtain ⟨k, hk, hm⟩ := Option.bind_eq_some_iff.1 h
    exact ⟨i, rest, k, rfl, hk, hm⟩

theorem among?_append_of_some (n : Node) (h : among? nodes place = some m) :
    among? (nodes ++ [n]) place = some m := by
  obtain ⟨i, rest, k, rfl, hk, hm⟩ := exists_cons_of_among? h
  have hi := (List.getElem?_eq_some_iff.1 hk).1
  rw [among?, List.getElem?_append_left hi, hk]
  exact hm

theorem among?_append_length (nodes : List Node) (n : Node) (place : List Nat) :
    among? (nodes ++ [n]) (nodes.length :: place) = n.at? place := by
  rw [among?, List.getElem?_concat_length]
  rfl

theorem among?_append_cases (h : among? (nodes ++ [n]) place = some m) :
    among? nodes place = some m ∨ ∃ rest, place = nodes.length :: rest ∧ n.at? rest = some m := by
  obtain ⟨i, rest, k, rfl, hk, hm⟩ := exists_cons_of_among? h
  by_cases hi : i < nodes.length
  · rw [among?, List.getElem?_append_left hi] at h
    exact Or.inl h
  · have hlast := (List.getElem?_eq_some_iff.1 hk).1
    rw [List.length_append, List.length_singleton] at hlast
    obtain rfl : i = nodes.length := by omega
    rw [List.getElem?_concat_length, Option.some.injEq] at hk
    subst hk
    exact Or.inr ⟨rest, rfl, hm⟩

/-- The lines of a list of trees, if each tree has its lines. -/
theorem exists_lists_among (nodes : List Node) (depth : Nat)
    (h : ∀ m ∈ nodes, ∃ places, Lists m.at? (fun place => depth + place.length) places (m.preorder depth)) :
    ∃ places, Lists (among? nodes) (fun place => depth + place.tail.length) places
      (nodes.flatMap (preorder depth)) := by
  induction nodes using List.reverseRecOn with
  | nil => exact ⟨[], .nil, by intro place; cases place <;> simp [among?], .nil⟩
  | append_singleton nodes n ih =>
    obtain ⟨ps, hps⟩ := ih fun m hm => h m (by simp [hm])
    obtain ⟨qs, hqs⟩ := h n (by simp)
    refine ⟨ps ++ qs.map (nodes.length :: ·), ?_, ?_, ?_⟩
    · rw [List.pairwise_append]
      refine ⟨hps.ascending, List.pairwise_map.2 (hqs.ascending.imp fun h => .cons h), ?_⟩
      intro p hp q hq
      obtain ⟨q, -, rfl⟩ := List.mem_map.1 hq
      obtain ⟨m, hm⟩ := (hps.complete p).1 hp
      obtain ⟨i, rest, k, rfl, hk, -⟩ := exists_cons_of_among? hm
      exact .rel (List.getElem?_eq_some_iff.1 hk).1
    · intro place
      rw [List.mem_append, hps.complete, List.mem_map]
      constructor
      · rintro (⟨m, hm⟩ | ⟨q, hq, rfl⟩)
        · exact ⟨m, among?_append_of_some n hm⟩
        · obtain ⟨m, hm⟩ := (hqs.complete q).1 hq
          exact ⟨m, by rw [among?_append_length, hm]⟩
      · rintro ⟨m, hm⟩
        rcases among?_append_cases hm with hm' | ⟨rest, rfl, hm'⟩
        · exact Or.inl ⟨m, hm'⟩
        · exact Or.inr ⟨rest, (hqs.complete rest).2 ⟨m, hm'⟩, rfl⟩
    · rw [List.flatMap_append, List.flatMap_singleton]
      refine List.rel_append ?_ ?_
      · exact hps.faithful.imp fun place e ⟨m, hm, he⟩ => ⟨m, among?_append_of_some n hm, he⟩
      · rw [List.forall₂_map_left_iff]
        exact hqs.faithful.imp fun place e ⟨m, hm, he⟩ => ⟨m, by rw [among?_append_length, hm], he⟩

end

/-- The lines of a tree: its root comes first, and then the trees right below it. -/
theorem exists_lists (n : Node) (depth : Nat) :
    ∃ places, Lists n.at? (fun place => depth + place.length) places (n.preorder depth) := by
  induction n using children_induction generalizing depth with
  | step n ih =>
    obtain ⟨ps, hps⟩ := exists_lists_among n.children (depth + 1) fun m hm => ih m hm (depth + 1)
    have hchild : ∀ i rest, n.at? (i :: rest) = among? n.children (i :: rest) := fun _ _ => rfl
    refine ⟨[] :: ps, List.pairwise_cons.2 ⟨?_, hps.ascending⟩, ?_, ?_⟩
    · intro place hplace
      obtain ⟨m, hm⟩ := (hps.complete place).1 hplace
      obtain ⟨i, rest, -, rfl, -⟩ := exists_cons_of_among? hm
      exact .nil
    · intro place
      cases place with
      | nil => exact ⟨fun _ => ⟨n, rfl⟩, fun _ => List.mem_cons_self⟩
      | cons i rest =>
        rw [hchild, ← hps.complete]
        simp
    · rw [preorder_eq]
      refine .cons ⟨n, rfl, rfl⟩ (hps.faithful.imp fun place e ⟨m, hm, he⟩ => ?_)
      obtain ⟨i, rest, -, rfl, -⟩ := exists_cons_of_among? hm
      rw [List.tail_cons] at he
      exact ⟨m, by rw [hchild, hm], by rw [he, List.length_cons, Nat.add_assoc, Nat.add_comm 1]⟩

/-! ## Lines -/

namespace Entry

def line (e : Entry) : String := String.ofList (List.replicate (2 * e.depth) ' ') ++ e.label

theorem text_eq (e : Entry) : e.text = e.line ++ "\n" := rfl

/-- Whether the label shows where the indentation and the line end: no space comes first, and it has no newline. -/
structure IsPlain (e : Entry) : Prop where
  space : ∀ c ∈ e.label.toList.head?, (c == ' ') = false
  newline : '\n' ∉ e.label.toList

variable {e f : Entry} {es fs : List Entry}

theorem IsPlain.newline_notMem_line (h : e.IsPlain) : '\n' ∉ e.line.toList := by
  simp [line, h.newline]

theorem IsPlain.takeWhile_and_dropWhile_line (h : e.IsPlain) :
    e.line.toList.takeWhile (· == ' ') = List.replicate (2 * e.depth) ' ' ∧
      e.line.toList.dropWhile (· == ' ') = e.label.toList := by
  rw [line, String.toList_append, String.toList_ofList]
  exact Lexeme.takeWhile_and_dropWhile_append_iff.2 ⟨by simp, h.space⟩

theorem IsPlain.takeWhile_and_dropWhile_text (h : e.IsPlain) (rest : String) :
    (e.text ++ rest).toList.takeWhile (· != '\n') = e.line.toList ∧
      (e.text ++ rest).toList.dropWhile (· != '\n') = '\n' :: rest.toList := by
  have htext : (e.text ++ rest).toList = e.line.toList ++ '\n' :: rest.toList := by
    simp [text_eq]
  rw [htext]
  refine Lexeme.takeWhile_and_dropWhile_append_iff.2 ⟨Lexeme.bne_of_notMem h.newline_notMem_line, ?_⟩
  rintro c ⟨⟩
  rfl

theorem line_inj (he : e.IsPlain) (hf : f.IsPlain) (h : e.line = f.line) : e = f := by
  obtain ⟨hdepth, hlabel⟩ := he.takeWhile_and_dropWhile_line
  rw [h, hf.takeWhile_and_dropWhile_line.1, List.replicate_inj] at hdepth
  rw [h, hf.takeWhile_and_dropWhile_line.2, String.toList_inj] at hlabel
  have hdepths : f.depth = e.depth := by omega
  obtain ⟨d, l⟩ := e
  obtain ⟨d', l'⟩ := f
  rw [mk.injEq]
  exact ⟨hdepths.symm, hlabel.symm⟩

theorem join_text_inj (hes : ∀ e ∈ es, e.IsPlain) (hfs : ∀ f ∈ fs, f.IsPlain)
    (h : String.join (es.map text) = String.join (fs.map text)) : es = fs := by
  induction es generalizing fs with
  | nil =>
    cases fs with
    | nil => rfl
    | cons f fs =>
      have hlists := congrArg String.toList h
      simp [text_eq] at hlists
  | cons e es ih =>
    cases fs with
    | nil =>
      have hlists := congrArg String.toList h
      simp [text_eq] at hlists
    | cons f fs =>
      rw [List.forall_mem_cons] at hes hfs
      rw [List.map_cons, List.map_cons, String.join_cons, String.join_cons] at h
      obtain ⟨hline, hrest⟩ := hes.1.takeWhile_and_dropWhile_text (String.join (es.map text))
      obtain ⟨hline', hrest'⟩ := hfs.1.takeWhile_and_dropWhile_text (String.join (fs.map text))
      rw [h, hline', String.toList_inj] at hline
      rw [h, hrest', List.cons.injEq, String.toList_inj] at hrest
      rw [line_inj hes.1 hfs.1 hline.symm, ih hes.2 hfs.2 hrest.2.symm]

end Entry

theorem isPlain_nameEntry (depth : Nat) {x : String} (h : '\n' ∉ x.toList) : (nameEntry depth x).IsPlain := by
  constructor <;> simp [nameEntry, h]

/-- If no name of a tree has a newline, then no line of it has one. -/
theorem isPlain_of_mem_preorder (n : Node) (h : ∀ x ∈ n.names, '\n' ∉ x.toList) (depth : Nat) :
    ∀ e ∈ n.preorder depth, e.IsPlain := by
  induction n generalizing depth with
  | integer i =>
    rw [preorder, List.forall_mem_singleton]
    constructor <;> simp [Numeral.newline_notMem_ofInt64]
  | var x =>
    rw [preorder, List.forall_mem_singleton]
    exact isPlain_nameEntry depth (h x (by simp [names]))
  | binary op l r ihl ihr =>
    rw [names, List.forall_mem_append] at h
    have hop : Entry.IsPlain ⟨depth, op.label⟩ := by
      cases op <;> constructor <;> simp [BinOp.label]
    rw [preorder, List.forall_mem_cons, List.forall_mem_append]
    exact ⟨hop, ihl h.1 _, ihr h.2 _⟩
  | assign x v ih =>
    rw [names, List.forall_mem_cons] at h
    have hroot : Entry.IsPlain ⟨depth, "Assignment Node"⟩ := by constructor <;> simp
    rw [preorder, List.forall_mem_cons, List.forall_mem_cons]
    exact ⟨hroot, isPlain_nameEntry _ h.1, ih h.2 _⟩

/-! ## The end of a tree -/

/-- As many trees as there are in the other list are the same trees, if their lines come first in the same lines. -/
theorem flatMap_preorder_append_inj {ns ms : List Node} {depth : Nat} {xs ys : List Entry}
    (each : ∀ n ∈ ns, ∀ m depth xs ys, n.preorder depth ++ xs = m.preorder depth ++ ys → n = m ∧ xs = ys)
    (length : ns.length = ms.length)
    (h : ns.flatMap (preorder depth) ++ xs = ms.flatMap (preorder depth) ++ ys) : ns = ms ∧ xs = ys := by
  induction ns generalizing ms with
  | nil =>
    obtain rfl := List.length_eq_zero_iff.1 length.symm
    exact ⟨rfl, h⟩
  | cons n ns ih =>
    obtain ⟨m, ms, rfl⟩ := List.exists_cons_of_length_eq_add_one length.symm
    rw [List.forall_mem_cons] at each
    rw [List.flatMap_cons, List.flatMap_cons, List.append_assoc, List.append_assoc] at h
    obtain ⟨rfl, hrest⟩ := each.1 _ _ _ _ h
    obtain ⟨rfl, hxs⟩ := ih each.2 (Nat.succ.inj length) hrest
    exact ⟨rfl, hxs⟩

/-- The lines of a tree are at the front of the lines of no other tree, whatever comes after them. -/
theorem preorder_append_inj (n m : Node) (depth : Nat) (xs ys : List Entry)
    (h : n.preorder depth ++ xs = m.preorder depth ++ ys) : n = m ∧ xs = ys := by
  induction n using children_induction generalizing m depth xs ys with
  | step n ih =>
    rw [preorder_eq, preorder_eq, List.cons_append, List.cons_append, List.cons.injEq, Entry.mk.injEq] at h
    obtain ⟨length, same⟩ := caption_inj h.1.2
    obtain ⟨hchildren, hrest⟩ := flatMap_preorder_append_inj ih length h.2
    exact ⟨same hchildren, hrest⟩

theorem flatMap_preorder_inj {ns ms : List Node} {depth : Nat}
    (h : ns.flatMap (preorder depth) = ms.flatMap (preorder depth)) : ns = ms := by
  induction ns generalizing ms with
  | nil =>
    cases ms with
    | nil => rfl
    | cons m ms => simp [preorder_eq] at h
  | cons n ns ih =>
    cases ms with
    | nil => simp [preorder_eq] at h
    | cons m ms =>
      obtain ⟨rfl, hrest⟩ := preorder_append_inj _ _ _ _ _ h
      rw [ih hrest]

end Node

/-! ## Programs -/

namespace Program

def entries (p : Program) : List Node.Entry := p.body.flatMap (Node.preorder 0)

theorem outline_eq (p : Program) : p.outline = String.join (p.entries.map Node.Entry.text) := by
  obtain ⟨body⟩ := p
  show String.join (body.map Node.outline) = String.join ((body.flatMap (Node.preorder 0)).map Node.Entry.text)
  induction body with
  | nil => rfl
  | cons n body ih =>
    rw [List.map_cons, String.join_cons, ih, List.flatMap_cons, List.map_append, String.join_append]
    rfl

theorem isPlain_of_mem_entries (p : Program) (h : ∀ x ∈ p.names, '\n' ∉ x.toList) : ∀ e ∈ p.entries, e.IsPlain := by
  intro e he
  obtain ⟨n, hn, he⟩ := List.mem_flatMap.1 he
  exact n.isPlain_of_mem_preorder (fun x hx => h x (List.mem_flatMap.2 ⟨n, hn, hx⟩)) 0 e he

end Program

/-- If no name has a newline, then the outline of a program has one line for each node, in preorder: the places of the
nodes come in the order of a dictionary, and the line is indented by two spaces for each step that the place goes down
from the root of its statement. Two such programs have the same outline only if they are the same. -/
theorem outline_lines_and_outline_inj :
    (∀ p : Program, (∀ x ∈ p.names, '\n' ∉ x.toList) →
      ∃ (places : List (List Nat)) (lines : List String),
        places.Pairwise (List.Lex (· < ·)) ∧ (∀ place, place ∈ places ↔ ∃ n, Node.among? p.body place = some n) ∧
        p.outline = String.join (lines.map (· ++ "\n")) ∧ (∀ line ∈ lines, '\n' ∉ line.toList) ∧
        List.Forall₂ (fun place line => ∃ n, Node.among? p.body place = some n ∧
          line = String.ofList (List.replicate (2 * place.tail.length) ' ') ++ n.caption) places lines) ∧
    ∀ p q : Program, (∀ x ∈ p.names, '\n' ∉ x.toList) → (∀ x ∈ q.names, '\n' ∉ x.toList) →
      p.outline = q.outline → p = q := by
  constructor
  · intro p h
    obtain ⟨places, hplaces⟩ := Node.exists_lists_among p.body 0 fun m _ => m.exists_lists 0
    refine ⟨places, p.entries.map Node.Entry.line, hplaces.ascending, hplaces.complete, ?_, ?_, ?_⟩
    · rw [p.outline_eq, List.map_map]
      rfl
    · intro line hline
      obtain ⟨e, he, rfl⟩ := List.mem_map.1 hline
      exact (p.isPlain_of_mem_entries h e he).newline_notMem_line
    · rw [List.forall₂_map_right_iff]
      refine hplaces.faithful.imp fun place e ⟨n, hn, he⟩ => ⟨n, hn, ?_⟩
      rw [he, Nat.zero_add]
      rfl
  · intro p q hp hq h
    rw [p.outline_eq, q.outline_eq] at h
    have hentries := Node.Entry.join_text_inj (p.isPlain_of_mem_entries hp) (q.isPlain_of_mem_entries hq) h
    obtain ⟨body⟩ := p
    obtain ⟨body'⟩ := q
    exact congrArg Program.mk (Node.flatMap_preorder_inj hentries)

/-- Names that look like lines, an assignment in an assignment, and an integer with a sign. -/
theorem outline_lines_and_outline_inj_of_nested :
    let p : Program :=
      ⟨[.assign "Variable Node: x" (.assign "  " (.binary .sub (.integer (-5)) (.var ""))), .var "Assignment Node"]⟩
    let q : Program :=
      ⟨[.assign "Variable Node: x" (.assign "  " (.binary .sub (.integer (2 - 7)) (.var ""))), .var "Assignment Node"]⟩
    (∀ x ∈ p.names, '\n' ∉ x.toList) ∧ (∀ x ∈ q.names, '\n' ∉ x.toList) ∧ p.outline = q.outline ∧ p = q ∧
      ∃ (places : List (List Nat)) (lines : List String), places.length = lines.length ∧ [0, 1, 1, 0] ∈ places ∧
        p.outline = String.join (lines.map (· ++ "\n")) := by
  intro p q
  have hp : ∀ x ∈ p.names, '\n' ∉ x.toList := by decide +kernel
  have hq : ∀ x ∈ q.names, '\n' ∉ x.toList := by decide +kernel
  have houtline : p.outline = q.outline := by decide +kernel
  obtain ⟨places, lines, -, complete, joined, -, faithful⟩ := outline_lines_and_outline_inj.1 p hp
  refine ⟨hp, hq, houtline, outline_lines_and_outline_inj.2 p q hp hq houtline, places, lines, ?_, ?_, joined⟩
  · exact faithful.length_eq
  · exact (complete _).2 ⟨.integer (-5), rfl⟩

end ExprLang
