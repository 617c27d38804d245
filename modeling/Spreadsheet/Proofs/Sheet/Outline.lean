import Spreadsheet.Proofs.Sheet.Execution

/-! # What a parse shows of the cells

The outline of a parse tree is the tree without its values: symbols, chosen alternatives, texts,
marks of the empty rule and references. Evaluation goes on while a text is parsed, and the cells
decide every value. They decide nothing of the outline, which depends on the text and the context
alone.
-/
namespace Spreadsheet

namespace Node

variable {ι A B : Type}

mutual

def mapAttr (f : A → B) : Node ι A → Node ι B
  | ⟨symbol, alternative, text, children, attr, isEpsilon⟩ =>
    ⟨symbol, alternative, text, mapAttrs f children, f attr, isEpsilon⟩

def mapAttrs (f : A → B) : List (Node ι A) → List (Node ι B)
  | [] => []
  | n :: ns => n.mapAttr f :: mapAttrs f ns

end

theorem mapAttrs_eq (f : A → B) (ns : List (Node ι A)) : mapAttrs f ns = ns.map (mapAttr f) := by
  induction ns with
  | nil => rfl
  | cons n ns ih => rw [mapAttrs, ih, List.map_cons]

theorem joinedText_map_mapAttr (f : A → B) (ns : List (Node ι A)) :
    joinedText (ns.map (mapAttr f)) = joinedText ns := by
  induction ns with
  | nil => rfl
  | cons n ns ih =>
    cases n
    simp only [List.map_cons, joinedText, ih, mapAttr]

@[simp] theorem mapAttr_branch (f : A → B) (symbol : ι) (i : Nat) (ns : List (Node ι A)) (a : A) :
    (branch symbol i ns a).mapAttr f = branch symbol i (ns.map (mapAttr f)) (f a) := by
  rw [branch, mapAttr, mapAttrs_eq, branch, joinedText_map_mapAttr]

end Node

namespace Formula

/-- A tree with only the references of its attributes. -/
def outline (n : Tree) : Node Symbol (Option Ref) := n.mapAttr Attribute.ref

variable (env env' : Ref → Value)

theorem outline_tailTree (tail mark : Symbol) (word : String) (op : Value → Value → Value)
    {ts us : List Tree} (h : ts.map outline = us.map outline) :
    outline (tailTree tail mark word op ts) = outline (tailTree tail mark word op us) := by
  induction ts generalizing us with
  | nil =>
    rw [List.map_nil, eq_comm, List.map_eq_nil_iff] at h
    rw [h]
  | cons t ts ih =>
    cases us with
    | nil => cases h
    | cons u us =>
      obtain ⟨hhead, htail⟩ := List.cons_eq_cons.mp h
      have hrest := ih htail
      unfold outline at hhead hrest ⊢
      simp only [tailTree, Node.mapAttr_branch, List.map_cons, List.map_nil, hhead, hrest]

theorem outline_chainTree (symbol tail mark : Symbol) (word : String)
    (op : Value → Value → Value) {c d : Chain Tree} (h : c.map outline = d.map outline) :
    outline (chainTree symbol tail mark word op c) =
      outline (chainTree symbol tail mark word op d) := by
  obtain ⟨hhead, htail⟩ := Chain.mk.inj h
  have hrest := outline_tailTree tail mark word op htail
  unfold outline at hhead hrest ⊢
  simp only [chainTree, Node.mapAttr_branch, List.map_cons, List.map_nil, hhead, hrest]

theorem Factor.outline_tree (f : Factor) : outline (f.tree env) = outline (f.tree env') := by
  cases f <;> rfl

theorem Expression.outline_tree (e : Expression Factor) :
    outline (e.tree env) = outline (e.tree env') := by
  cases e with
  | quoted body => rfl
  | sum terms =>
    refine outline_chainTree _ _ _ _ _ ?_
    simp only [Chain.map_map]
    refine Chain.map_congr fun c _ => outline_chainTree _ _ _ _ _ ?_
    simp only [Chain.map_map]
    exact Chain.map_congr fun f _ => Factor.outline_tree env env' f

theorem Statement.outline_tree (st : Statement) : outline (st.tree env) = outline (st.tree env') := by
  cases st with
  | assign target e =>
    have he := Expression.outline_tree env env' e
    unfold outline at he ⊢
    simp only [tree, Node.mapAttr_branch, List.map_cons, List.map_nil, he]
  | print kind e =>
    have he := Expression.outline_tree env env' e
    unfold outline at he ⊢
    simp only [tree, Node.mapAttr_branch, List.map_cons, List.map_nil, he]

theorem Statement.outline_programTree (st : Statement) {n n' m m' : Tree}
    (hn : outline n = outline n') (hm : outline m = outline m') :
    outline (st.programTree n m) = outline (st.programTree n' m') := by
  unfold outline at hn hm ⊢
  cases st with
  | assign target e =>
    simp only [programTree, Node.mapAttr_branch, List.map_cons, List.map_nil, hn, hm]
  | print kind e =>
    simp only [programTree, Node.mapAttr_branch, List.map_cons, List.map_nil, hn, hm]

end Formula

open Formula

/-- Every statement runs over the cells that the ones before it have left, and still two runs of a
program have one outline. -/
theorem Cells.outline_runTree (busy busy' : List Ref) (sts : List Statement) (cells cells' : Cells) :
    outline (runTree busy sts cells) = outline (runTree busy' sts cells') := by
  induction sts generalizing cells cells' with
  | nil => rfl
  | cons st sts ih =>
    exact Statement.outline_programTree st (Statement.outline_tree _ _ st) (ih _ _)

/-- A match without the values of its tree. -/
def Formula.outlined (result : Option (Match Symbol Attribute)) :
    Option (Node Symbol (Option Ref) × Text) :=
  result.map fun p => (outline p.1, p.2)

namespace Sheet

variable {s t : Sheet}

theorem exists_program_outlined (hon : s.detectsCycles = true) (input : Text) :
    ∃ result t, (grammar effects).parse .program input s = some (result, t) ∧
      outlined result = some (outline (Cells.runTree [] (readProgram s.context input).1 .empty),
        (readProgram s.context input).2) := by
  have hfuel : 11 + input.length ≤ (grammar effects).depth input := by
    have := le_depth effects input
    omega
  obtain ⟨t, hrun, -⟩ := gives_program hon rfl hfuel s (After.refl s)
  refine ⟨_, t, hrun, ?_⟩
  rw [outlined, Option.map_some, Cells.outline_runTree]

theorem exists_expression_outlined (hon : s.detectsCycles = true) (input : Text) :
    ∃ result t, (grammar effects).parse .expression input s = some (result, t) ∧
      outlined result = (Expression.read s.context input).map
        fun p => (outline (p.1.tree fun _ => .empty), p.2) := by
  have hfuel : 7 + input.length ≤ (grammar effects).depth input := by
    have := le_depth effects input
    omega
  cases hread : Expression.read s.context input with
  | none =>
    obtain ⟨t, hrun, -⟩ := gives_expression_none hon hfuel hread s (After.refl s)
    exact ⟨none, t, hrun, rfl⟩
  | some p =>
    obtain ⟨t, hrun, -⟩ := gives_expression hon hfuel hread s (After.refl s)
    refine ⟨_, t, hrun, ?_⟩
    rw [outlined, Option.map_some, Option.map_some, Expression.outline_tree]

theorem exists_reference_outlined (s : Sheet) (input : Text) :
    ∃ result t, (grammar effects).parse .cellReference input s = some (result, t) ∧
      outlined result = (Factor.readReference s.context input).map
        fun p => (outline p.1.referenceTree, p.2) := by
  obtain ⟨t, hrun, -⟩ := gives_parse_reference effects s input s (After.refl s)
  refine ⟨_, t, hrun, ?_⟩
  rw [outlined, Option.map_map]
  rfl

/-- A text parsed as a program, an expression or a reference on two sheets in the same context
matches on both or on neither. The matches leave the same text over and have the same trees but for
the values, whatever the cells of the two sheets are. -/
theorem parse_outline_eq (hs : s.detectsCycles = true) (ht : t.detectsCycles = true)
    (hcontext : s.context = t.context) {symbol : Symbol}
    (hsymbol : symbol ∈ [Symbol.program, .expression, .cellReference]) (input : Text) :
    ∃ m m' s' t', (grammar effects).parse symbol input s = some (m, s') ∧
      (grammar effects).parse symbol input t = some (m', t') ∧ outlined m = outlined m' := by
  simp only [List.mem_cons, List.not_mem_nil, or_false] at hsymbol
  rcases hsymbol with rfl | rfl | rfl
  · obtain ⟨m, s', hm, houtline⟩ := exists_program_outlined hs input
    obtain ⟨m', t', hm', houtline'⟩ := exists_program_outlined ht input
    exact ⟨m, m', s', t', hm, hm', by rw [houtline, houtline', hcontext]⟩
  · obtain ⟨m, s', hm, houtline⟩ := exists_expression_outlined hs input
    obtain ⟨m', t', hm', houtline'⟩ := exists_expression_outlined ht input
    exact ⟨m, m', s', t', hm, hm', by rw [houtline, houtline', hcontext]⟩
  · obtain ⟨m, s', hm, houtline⟩ := exists_reference_outlined s input
    obtain ⟨m', t', hm', houtline'⟩ := exists_reference_outlined t input
    exact ⟨m, m', s', t', hm, hm', by rw [houtline, houtline', hcontext]⟩

/-- A sheet in the context of a cell that is not stored, as no other cell is. -/
def unfilled : Sheet where
  context := some ⟨0, 1⟩
  detectsCycles := true

/-- The same with a number in that cell and a formula to its left that uses it. -/
def filled : Sheet :=
  { unfilled with
    cells := (Cells.empty.insert ⟨0, 0⟩ ⟨Text.ofString "r0c1 + 3", .str (Text.ofString "x")⟩).insert
      ⟨0, 1⟩ ⟨Text.ofString "5", .empty⟩ }

theorem parse_outline_eq_filled :
    unfilled.detectsCycles = true ∧ filled.detectsCycles = true ∧ unfilled.context = filled.context ∧
    Symbol.expression ∈ [Symbol.program, .expression, .cellReference] ∧ ∃ m m' s' t',
      (grammar effects).parse .expression (Text.ofString "A1 * 2 + r0c-1 !") unfilled = some (m, s') ∧
      (grammar effects).parse .expression (Text.ofString "A1 * 2 + r0c-1 !") filled = some (m', t') ∧
      outlined m = outlined m' ∧ m.map (·.1.attr.value) = some .empty ∧
      m'.map (·.1.attr.value) = some (.int 24) := by
  have hsymbol : Symbol.expression ∈ [Symbol.program, .expression, .cellReference] := by decide
  refine ⟨rfl, rfl, rfl, hsymbol, ?_⟩
  obtain ⟨m, m', s', t', hm, hm', houtline⟩ := parse_outline_eq (s := unfilled) (t := filled) rfl rfl
    rfl hsymbol (Text.ofString "A1 * 2 + r0c-1 !")
  have hvalue : ((grammar effects).parse .expression (Text.ofString "A1 * 2 + r0c-1 !") unfilled).map
      (fun p => p.1.map (·.1.attr.value)) = some (some .empty) := by decide +kernel
  have hvalue' : ((grammar effects).parse .expression (Text.ofString "A1 * 2 + r0c-1 !") filled).map
      (fun p => p.1.map (·.1.attr.value)) = some (some (.int 24)) := by decide +kernel
  rw [hm, Option.map_some, Option.some.injEq] at hvalue
  rw [hm', Option.map_some, Option.some.injEq] at hvalue'
  exact ⟨m, m', s', t', hm, hm', houtline, hvalue, hvalue'⟩

end Sheet
end Spreadsheet
