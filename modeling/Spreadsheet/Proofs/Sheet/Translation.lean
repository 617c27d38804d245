import Spreadsheet.Proofs.Formula.Layout
import Spreadsheet.Proofs.Grammar.Layout
import Spreadsheet.Proofs.Sheet.Execution

/-! # Moving a sheet

All cells are moved by the same number of rows and columns. An expression with relative references
only then refers to the moved cells, and has the value that it had before. The computations of the
two sheets run in parallel: a cell is busy in the one while the moved cell is busy in the other.
-/
namespace Spreadsheet

open Formula Grammar

namespace Ref

variable {rows cols : Nat} {r x : Ref}

/-- The cell some rows down and columns to the right. Coordinates wrap around. -/
def translate (rows cols : Nat) (r : Ref) : Ref :=
  ⟨r.row + Int64.ofNat rows, r.col + Int64.ofNat cols⟩

/-- A move by this far does not wrap around. -/
def Fits (rows cols : Nat) (r : Ref) : Prop :=
  r.row.toInt + rows ≤ Int64.maxValue.toInt ∧ r.col.toInt + cols ≤ Int64.maxValue.toInt

instance : Decidable (r.Fits rows cols) := inferInstanceAs (Decidable (_ ∧ _))

theorem translate_injective (rows cols : Nat) : Function.Injective (translate rows cols) := by
  rintro ⟨i, j⟩ ⟨i', j'⟩ h
  simp only [translate, mk.injEq, Int64.add_left_inj] at h
  rw [h.1, h.2]

theorem not_add_neg {i : Int64} {n : Nat} (hi : ¬ i < 0)
    (hn : i.toInt + n ≤ Int64.maxValue.toInt) : ¬ i + Int64.ofNat n < 0 := by
  simp only [Int64.lt_iff_toInt_lt, Int64.toInt_zero, Int64.toInt_maxValue] at hi hn ⊢
  rw [Int64.toInt_add, Int64.toInt_ofNat_of_lt (by omega), Int.bmod_eq_of_le (by omega) (by omega)]
  omega

/-- A distance leads from a moved cell to the moved target, unless that wraps around. -/
theorem shift?_translate {i j : Int64} (h : r.shift? i j = some x) (hx : x.Fits rows cols) :
    (r.translate rows cols).shift? i j = some (x.translate rows cols) := by
  simp only [shift?] at h
  split at h
  · cases h
  · next hnot =>
    cases h
    have hrow : r.row + Int64.ofNat rows + i = r.row + i + Int64.ofNat rows := by
      rw [Int64.add_assoc, Int64.add_comm (Int64.ofNat rows), Int64.add_assoc]
    have hcol : r.col + Int64.ofNat cols + j = r.col + j + Int64.ofNat cols := by
      rw [Int64.add_assoc, Int64.add_comm (Int64.ofNat cols), Int64.add_assoc]
    rw [not_or] at hnot
    simp only [shift?, translate, hrow, hcol]
    rw [if_neg (not_or.mpr ⟨not_add_neg hnot.1 hx.1, not_add_neg hnot.2 hx.2⟩)]

end Ref

section Formulas

namespace Formula

variable {g : Ref → Ref}

def Factor.mapRelative (g : Ref → Ref) : Factor → Factor
  | .absolute a => .absolute a
  | .relative rows cols r => .relative rows cols (g r)
  | .integer n => .integer n

theorem Factor.words_mapRelative (f : Factor) : (f.mapRelative g).words = f.words := by
  cases f <;> rfl

theorem Expression.words_mapRelative (e : Expression Factor) :
    (e.map (Factor.mapRelative g)).words Factor.words = e.words Factor.words := by
  rw [Expression.words_map]
  congr 1
  funext f
  exact f.words_mapRelative

theorem Expression.eval_mapRelative {e : Expression Factor} {env : Ref → Value}
    (habsolute : ∀ a, .absolute a ∉ e.factors) :
    (e.map (Factor.mapRelative g)).eval env = e.eval (env ∘ g) := by
  unfold eval
  rw [Expression.map_map]
  refine congrArg Expression.value (Expression.map_congr fun f hf => ?_)
  cases f with
  | absolute a => exact absurd hf (habsolute a)
  | relative rows cols r => rfl
  | integer n => rfl

theorem Factor.valid_translate {rows cols : Nat} {r : Ref} {f : Factor} (hf : f.Valid (some r))
    (habsolute : ∀ a, f ≠ .absolute a) (hfits : ∀ x ∈ f.refs, x.Fits rows cols) :
    (f.mapRelative (Ref.translate rows cols)).Valid (some (r.translate rows cols)) := by
  cases f with
  | absolute a => exact absurd rfl (habsolute a)
  | integer n => exact hf
  | relative i j x =>
    obtain ⟨hi, hj, origin, horigin, hshift⟩ := hf
    cases horigin
    exact ⟨hi, hj, _, rfl, Ref.shift?_translate hshift (hfits x (by simp [Factor.refs]))⟩

theorem Expression.valid_translate {rows cols : Nat} {r : Ref} {e : Expression Factor}
    (he : e.Valid (some r)) (habsolute : ∀ a, .absolute a ∉ e.factors)
    (hfits : ∀ x ∈ e.refs, x.Fits rows cols) :
    (e.map (Factor.mapRelative (Ref.translate rows cols))).Valid
      (some (r.translate rows cols)) := by
  cases e with
  | quoted body => exact he
  | sum terms =>
    intro c' hc' f' hf'
    rw [Chain.toList_map] at hc'
    obtain ⟨c, hc, rfl⟩ := List.mem_map.mp hc'
    rw [Chain.toList_map] at hf'
    obtain ⟨f, hf, rfl⟩ := List.mem_map.mp hf'
    have hmem : f ∈ (Expression.sum terms).factors := List.mem_flatMap.mpr ⟨c, hc, hf⟩
    refine Factor.valid_translate (he c hc f hf) ?_ fun x hx => ?_
    · rintro a rfl
      exact habsolute a hmem
    · exact hfits x (List.mem_flatMap.mpr ⟨f, hmem, hx⟩)

/-- A text that reads to its end does so from the moved cell, with the references moved. -/
theorem Expression.read_translate {rows cols : Nat} {r : Ref} {e : Expression Factor} {input : Text}
    (h : Expression.read (some r) input = some (e, [])) (habsolute : ∀ a, .absolute a ∉ e.factors)
    (hfits : ∀ x ∈ e.refs, x.Fits rows cols) :
    Expression.read (some (r.translate rows cols)) input =
      some (e.map (Factor.mapRelative (Ref.translate rows cols)), []) := by
  obtain ⟨he, htakes⟩ := Expression.read_eq_iff.mp h
  refine Expression.read_eq_iff.mpr ⟨Expression.valid_translate he habsolute hfits, ?_⟩
  rw [Expression.words_mapRelative]
  exact htakes

section Trees

variable {n c : Tree} {env : Ref → Value} {symbol tail mark : Symbol} {word : String}
  {op : Value → Value → Value}

theorem nodes_subset_tailTree {ts : List Tree} (h : n ∈ ts) :
    n.nodes ⊆ (tailTree tail mark word op ts).nodes := by
  induction ts with
  | nil => cases h
  | cons t ts ih =>
    rcases List.mem_cons.mp h with rfl | h
    · exact Node.nodes_subset (by simp [tailTree, Node.branch])
    · exact List.Subset.trans (ih h) (Node.nodes_subset (by simp [tailTree, Node.branch]))

theorem nodes_subset_chainTree {c : Chain Tree} (h : n ∈ c.toList) :
    n.nodes ⊆ (chainTree symbol tail mark word op c).nodes := by
  rcases List.mem_cons.mp h with rfl | h
  · exact Node.nodes_subset (by simp [chainTree, Node.branch])
  · have htail : (tailTree tail mark word op c.tail).nodes ⊆
        (chainTree symbol tail mark word op c).nodes :=
      Node.nodes_subset (by simp [chainTree, Node.branch])
    exact List.Subset.trans (nodes_subset_tailTree h) htail

/-- The trees of the factors are part of the tree of an expression. -/
theorem nodes_subset_tree {e : Expression Factor} {f : Factor} (hf : f ∈ e.factors) :
    (f.tree env).nodes ⊆ (e.tree env).nodes := by
  cases e with
  | quoted body => cases hf
  | sum terms =>
    obtain ⟨c, hc, hf⟩ := List.mem_flatMap.mp hf
    have hfactor : f.tree env ∈ (c.map (Factor.tree env)).toList := List.mem_map_of_mem hf
    have hterm : termTree (c.map (Factor.tree env)) ∈
        ((terms.map (·.map (Factor.tree env))).map termTree).toList :=
      List.mem_map_of_mem (List.mem_map_of_mem hc)
    exact List.Subset.trans (nodes_subset_chainTree hfactor) (nodes_subset_chainTree hterm)

/-- An absolute reference shows in the tree. -/
theorem absolute_not_mem {e : Expression Factor}
    (h : ∀ n ∈ (e.tree env).nodes, n.symbol ≠ .absoluteCell) (a : Address) :
    .absolute a ∉ e.factors := by
  intro ha
  have hreference : (Factor.absolute a).referenceTree.nodes ⊆ ((Factor.absolute a).tree env).nodes :=
    Node.nodes_subset (by simp [Factor.tree, Node.branch])
  have haddress : a.tree.nodes ⊆ (Factor.absolute a).referenceTree.nodes :=
    Node.nodes_subset (by simp [Factor.referenceTree, Node.branch])
  exact h a.tree (nodes_subset_tree ha (hreference (haddress a.tree.mem_nodes))) rfl

/-- So does every cell that is referred to. -/
theorem exists_node_of_refs {e : Expression Factor} {r : Ref} (hr : r ∈ e.refs) :
    ∃ n ∈ (e.tree env).nodes, n.attr.ref = some r := by
  obtain ⟨f, hf, hr⟩ := List.mem_flatMap.mp hr
  refine ⟨f.tree env, nodes_subset_tree hf (f.tree env).mem_nodes, ?_⟩
  cases f with
  | absolute a => rw [List.mem_singleton.mp hr]; rfl
  | relative rows cols x => rw [List.mem_singleton.mp hr]; rfl
  | integer n => cases hr

end Trees

end Formula

end Formulas

namespace Cells

variable {cells : Cells} {g : Ref → Ref}

def relocate (g : Ref → Ref) (cells : Cells) : Cells :=
  cells.entries.foldr (fun e moved => moved.insert (g e.1) e.2) .empty

theorem get?_relocate (hg : Function.Injective g) (cells : Cells) (r : Ref) :
    (cells.relocate g).get? (g r) = cells.get? r := by
  unfold relocate get?
  induction cells.entries with
  | nil => rfl
  | cons e es ih =>
    rw [List.foldr_cons, Entry.lookup_cons, ← ih]
    exact (get?_insert _ _ _ _).trans (by simp only [hg.eq_iff]; rfl)

theorem exists_of_get?_relocate {x : Ref} {c : Cell} (h : (cells.relocate g).get? x = some c) :
    ∃ r, g r = x ∧ cells.get? r = some c := by
  simp only [get?_eq_some_iff (s := cells)]
  unfold relocate at h
  generalize cells.entries = es at h ⊢
  induction es with
  | nil => cases h
  | cons e es ih =>
    rw [List.foldr_cons, get?_insert] at h
    by_cases hx : x = g e.1
    · rw [if_pos hx] at h
      cases h
      exact ⟨e.1, hx.symm, List.mem_cons_self⟩
    · rw [if_neg hx] at h
      obtain ⟨r, hr, hmem⟩ := ih h
      exact ⟨r, hr, List.mem_cons_of_mem e hmem⟩

/-- Every text reads, has no absolute reference, and reads with its references moved from where the
cell is taken. -/
def Relocatable (g : Ref → Ref) (cells : Cells) : Prop :=
  ∀ r c, cells.get? r = some c → ∃ e, c.formula? r = some e ∧ (∀ a, .absolute a ∉ e.factors) ∧
    c.formula? (g r) = some (e.map (Factor.mapRelative g))

/-- Values are computed in parallel before and after the change. -/
theorem valueOf_relocate (hg : Function.Injective g) (h : cells.Relocatable g) (busy : List Ref)
    (r : Ref) : (cells.relocate g).valueOf (busy.map g) (g r) = cells.valueOf busy r := by
  have hget (x : Ref) := cells.get?_relocate hg x
  induction busy, r using computation_induction cells with
  | unstored busy r hnone => rw [valueOf_unstored hnone, valueOf_unstored ((hget r).trans hnone)]
  | cut busy r c _ hr => rw [valueOf_busy hr, valueOf_busy (List.mem_map_of_mem hr)]
  | unreadable busy r c hsome _ hformula =>
    obtain ⟨e, he, -⟩ := h r c hsome
    rw [hformula] at he
    cases he
  | formula busy r c e hsome hr hformula ih =>
    obtain ⟨e', he, habsolute, hmoved⟩ := h r c hsome
    cases hformula.symm.trans he
    have hnot : g r ∉ busy.map g := by
      rw [List.mem_map_of_injective hg]
      exact hr
    rw [valueOf_formula hsome hr hformula, valueOf_formula ((hget r).trans hsome) hnot hmoved,
      Expression.eval_mapRelative habsolute]
    exact Expression.eval_congr fun x _ => ih x

theorem shown_relocate (hg : Function.Injective g) (h : cells.Relocatable g) (busy : List Ref)
    (r : Ref) : (cells.relocate g).shown (busy.map g) (g r) = cells.shown busy r := by
  unfold shown
  rw [get?_relocate hg, valueOf_relocate hg h]

end Cells

namespace Sheet

variable {s : Sheet} {rows cols : Nat} {r : Ref}

/-- The sheet with the contents of all cells moved, and also the cells under evaluation. -/
def translate (rows cols : Nat) (s : Sheet) : Sheet :=
  { s with
    cells := s.cells.relocate (Ref.translate rows cols)
    evaluating := s.evaluating.map (Ref.translate rows cols) }

/-- A match without absolute references, whose references fit after the move. -/
def IsMovable (rows cols : Nat) (n : Tree) : Prop :=
  ∀ m ∈ n.nodes, m.symbol ≠ .absoluteCell ∧ ∀ r ∈ m.attr.ref, r.Fits rows cols

instance (n : Tree) : Decidable (IsMovable rows cols n) :=
  inferInstanceAs (Decidable (∀ m ∈ n.nodes, _ ∧ _))

/-- A movable text is read from the moved cell as it was, with the references moved. -/
theorem exists_read_translate {n : Tree} {text : Text} {t : Sheet} (hon : s.detectsCycles = true)
    (hparse : parse .expression (some r) text s = some (some (n, []), t))
    (hn : IsMovable rows cols n) : ∃ e : Expression Factor,
      Expression.read (some r) text = some (e, []) ∧ (∀ a, .absolute a ∉ e.factors) ∧
      Expression.read (some (r.translate rows cols)) text =
        some (e.map (Factor.mapRelative (Ref.translate rows cols)), []) := by
  obtain ⟨u, hu⟩ := parse_expression_eq hon r text
  have hresult := congrArg Prod.fst (Option.some.inj (hu.symm.trans hparse))
  obtain ⟨⟨e, rest⟩, hread, heq⟩ := Option.map_eq_some_iff.mp hresult
  cases heq
  have habsolute := absolute_not_mem fun m hm => (hn m hm).1
  refine ⟨e, hread, habsolute, Expression.read_translate hread habsolute fun x hx => ?_⟩
  obtain ⟨m, hm, href⟩ := exists_node_of_refs hx
  exact (hn m hm).2 x href

/-- Relative formulas do not depend on where the sheet is. If every stored text parses to its end
with relative references only, all to cells that fit after the move, then every text of the moved
sheet parses to its end, and a read of a moved cell shows what a read of the cell shows. -/
theorem compute_translate (hon : s.detectsCycles = true)
    (hstored : ∀ r c, s.get? r = some c → ∃ n t,
      parse .expression (some r) c.expression s = some (some (n, []), t) ∧ IsMovable rows cols n) :
    (∀ r c, (s.translate rows cols).get? r = some c → ∃ n t,
      parse .expression (some r) c.expression (s.translate rows cols) = some (some (n, []), t)) ∧
    ∀ r, ∃ c t u, compute r s = some (c, t) ∧
      compute (r.translate rows cols) (s.translate rows cols) = some (c, u) := by
  have hmoved (r : Ref) (c : Cell) (hget : s.get? r = some c) : ∃ e : Expression Factor,
      Expression.read (some r) c.expression = some (e, []) ∧ (∀ a, .absolute a ∉ e.factors) ∧
      Expression.read (some (r.translate rows cols)) c.expression =
        some (e.map (Factor.mapRelative (Ref.translate rows cols)), []) := by
    obtain ⟨n, t, hparse, hn⟩ := hstored r c hget
    exact exists_read_translate hon hparse hn
  have hinjective := Ref.translate_injective rows cols
  constructor
  · intro x c hx
    obtain ⟨r, rfl, hget⟩ := Cells.exists_of_get?_relocate hx
    obtain ⟨e, -, -, hread⟩ := hmoved r c hget
    obtain ⟨t, hparse⟩ := parse_expression_eq (s := s.translate rows cols) hon
      (r.translate rows cols) c.expression
    rw [hread] at hparse
    exact ⟨_, t, hparse⟩
  · intro r
    have hrelocatable : s.cells.Relocatable (Ref.translate rows cols) := by
      intro x c hget
      obtain ⟨e, hread, habsolute, hread'⟩ := hmoved x c hget
      exact ⟨e, by rw [Cell.formula?, hread]; rfl, habsolute, by rw [Cell.formula?, hread']; rfl⟩
    obtain ⟨t, ht, -⟩ := compute_of_detects hon r
    obtain ⟨u, hu, -⟩ := compute_of_detects (s := s.translate rows cols) hon (r.translate rows cols)
    refine ⟨_, t, u, ht, ?_⟩
    rw [hu]
    exact congrArg (fun c => some (c, u)) (Cells.shown_relocate hinjective hrelocatable _ r)

/-- Relative references to another cell, to the cell itself and to one that is not stored. -/
def leaning : Sheet where
  cells := (((Cells.empty.insert ⟨0, 0⟩ ⟨Text.ofString "r0c1 + 1", .empty⟩).insert ⟨0, 1⟩
    ⟨Text.ofString "5*r1c-1", .int 9⟩).insert ⟨1, 0⟩ ⟨Text.ofString " 2 ", .empty⟩).insert ⟨1, 1⟩
    ⟨Text.ofString "r0c0+r5c5", .empty⟩
  detectsCycles := true

theorem compute_translate_leaning :
    (∀ r c, (leaning.translate 3 2).get? r = some c → ∃ n t,
      parse .expression (some r) c.expression (leaning.translate 3 2) = some (some (n, []), t)) ∧
    ∃ t u v w,
      compute ⟨0, 0⟩ leaning = some (⟨Text.ofString "r0c1 + 1", .int 11⟩, t) ∧
      compute ⟨3, 2⟩ (leaning.translate 3 2) = some (⟨Text.ofString "r0c1 + 1", .int 11⟩, u) ∧
      compute ⟨1, 1⟩ leaning = some (⟨Text.ofString "r0c0+r5c5", .empty⟩, v) ∧
      compute ⟨4, 3⟩ (leaning.translate 3 2) = some (⟨Text.ofString "r0c0+r5c5", .empty⟩, w) := by
  have hentries : ∀ e ∈ leaning.cells.entries,
      (parse .expression (some e.1) e.2.expression leaning).map
        (·.1.map fun m => (m.2, decide (IsMovable 3 2 m.1))) = some (some ([], true)) := by
    decide +kernel
  have hstored (r : Ref) (c : Cell) (hget : leaning.get? r = some c) : ∃ n t,
      parse .expression (some r) c.expression leaning = some (some (n, []), t) ∧
        IsMovable 3 2 n := by
    have hcheck := hentries (r, c) (Cells.get?_eq_some_iff.mp hget)
    obtain ⟨⟨result, t⟩, hparse, heq⟩ := Option.map_eq_some_iff.mp hcheck
    obtain ⟨⟨n, rest⟩, rfl, hn⟩ := Option.map_eq_some_iff.mp heq
    obtain ⟨rfl, hmovable⟩ := Prod.mk.inj hn
    exact ⟨n, t, hparse, of_decide_eq_true hmovable⟩
  obtain ⟨hparses, hcompute⟩ := compute_translate (s := leaning) rfl hstored
  obtain ⟨c, t, u, ht, hu⟩ := hcompute ⟨0, 0⟩
  obtain ⟨d, v, w, hv, hw⟩ := hcompute ⟨1, 1⟩
  have hc : (compute ⟨0, 0⟩ leaning).map (·.1) = some ⟨Text.ofString "r0c1 + 1", .int 11⟩ := by
    decide +kernel
  have hd : (compute ⟨1, 1⟩ leaning).map (·.1) = some ⟨Text.ofString "r0c0+r5c5", .empty⟩ := by
    decide +kernel
  rw [ht] at hc
  rw [hv] at hd
  cases hc
  cases hd
  exact ⟨hparses, t, u, v, w, ht, hu, hv, hw⟩

end Sheet

end Spreadsheet
