import Spreadsheet.Proofs.Formula.Tree
import Spreadsheet.Proofs.Formula.Writing
import Spreadsheet.Proofs.Grammar.Layout
import Mathlib.Algebra.BigOperators.Group.List.Basic
import Mathlib.Algebra.Ring.Int.Defs

/-! # Factors and their arithmetic

The factors of an expression are the nodes of values in its tree, grouped by the nodes of terms. The
groups are those of the text between the marks. Items are combined from the right, one after the
other; over integers this is the sum of the products of the factors in words of 64 bits. A factor
that is no integer makes the whole empty, unless it is the only one.
-/
namespace Spreadsheet

namespace Node

variable {ι A : Type} [DecidableEq ι]

/-- The nodes of a symbol in a tree, in the order of the text. -/
def parts (symbol : ι) (n : Node ι A) : List (Node ι A) := n.nodes.filter (·.symbol = symbol)

variable {symbol : ι} {n : Node ι A}

theorem parts_of_ne (h : n.symbol ≠ symbol) :
    n.parts symbol = n.children.flatMap (parts symbol) := by
  rw [parts, nodes_eq, List.filter_cons_of_neg (by simpa using h), List.filter_flatMap]
  rfl

theorem parts_self (n : Node ι A) :
    n.parts n.symbol = n :: n.children.flatMap (parts n.symbol) := by
  rw [parts, nodes_eq, List.filter_cons_of_pos (by simp), List.filter_flatMap]
  rfl

end Node

namespace Formula

def factorNodes (n : Tree) : List (List Tree) := (n.parts .term).map (·.parts .value)

section Parts

variable {part symbol tail mark : Symbol} {word : String} {op : Value → Value → Value}
  {env : Ref → Value}

theorem parts_tailTree (htail : tail ≠ part) (hmark : mark ≠ part) (hepsilon : .epsilon ≠ part)
    (ts : List Tree) : (tailTree tail mark word op ts).parts part = ts.flatMap (Node.parts part) := by
  have hword : (markTree mark word).parts part = [] := Node.parts_of_ne hmark
  have hnothing : (Node.epsilon .epsilon : Tree).parts part = [] := Node.parts_of_ne hepsilon
  induction ts with
  | nil =>
    rw [tailTree, Node.parts_of_ne htail]
    simp [Node.vacuous, hnothing]
  | cons t ts ih =>
    rw [tailTree, Node.parts_of_ne htail]
    simp [Node.branch, hword, ih]

theorem parts_chainTree_of_ne (hsymbol : symbol ≠ part) (htail : tail ≠ part) (hmark : mark ≠ part)
    (hepsilon : .epsilon ≠ part) (c : Chain Tree) :
    (chainTree symbol tail mark word op c).parts part = c.toList.flatMap (Node.parts part) := by
  rw [chainTree, Node.parts_of_ne hsymbol]
  simp [Node.branch, Chain.toList, parts_tailTree htail hmark hepsilon]

theorem parts_chainTree_self (htail : tail ≠ symbol) (hmark : mark ≠ symbol)
    (hepsilon : .epsilon ≠ symbol) (c : Chain Tree) :
    (chainTree symbol tail mark word op c).parts symbol =
      chainTree symbol tail mark word op c :: c.toList.flatMap (Node.parts symbol) := by
  refine (Node.parts_self (chainTree symbol tail mark word op c)).trans ?_
  simp [chainTree, Node.branch, Chain.toList, parts_tailTree htail hmark hepsilon]

theorem Factor.parts_term_tree (f : Factor) : (f.tree env).parts .term = [] := by
  cases f <;> rfl

theorem Factor.parts_value_tree (f : Factor) : (f.tree env).parts .value = [f.tree env] := by
  cases f <;> rfl

theorem parts_term_termTree (c : Chain Factor) :
    (termTree (c.map (Factor.tree env))).parts .term = [termTree (c.map (Factor.tree env))] := by
  rw [termTree, parts_chainTree_self (by decide) (by decide) (by decide), Chain.toList_map,
    List.flatMap_map]
  simp [Factor.parts_term_tree]

theorem parts_value_termTree (c : Chain Factor) :
    (termTree (c.map (Factor.tree env))).parts .value = c.toList.map (Factor.tree env) := by
  rw [termTree, parts_chainTree_of_ne (by decide) (by decide) (by decide) (by decide),
    Chain.toList_map, List.flatMap_map]
  simp only [Factor.parts_value_tree, ← List.map_eq_flatMap]

/-- The nodes of the factors are their trees, term by term. -/
theorem factorNodes_sum (terms : Chain (Chain Factor)) :
    factorNodes ((Expression.sum terms).tree env) =
      terms.toList.map fun c => c.toList.map (Factor.tree env) := by
  have hterms : ((Expression.sum terms).tree env).parts .term =
      terms.toList.map fun c => termTree (c.map (Factor.tree env)) := by
    rw [Expression.tree, Expression.map, Expression.ofTrees, sumTree,
      parts_chainTree_of_ne (by decide) (by decide) (by decide) (by decide), Chain.toList_map,
      Chain.toList_map, List.map_map, List.flatMap_map]
    simp only [Function.comp_apply, parts_term_termTree, ← List.map_eq_flatMap]
  rw [factorNodes, hterms, List.map_map]
  exact List.map_congr_left fun c _ => parts_value_termTree c

end Parts

section Texts

variable {α : Type} {context : Option Ref} {b : UInt8}

/-- The items of a chain are the pieces of its text between the marks. -/
theorem Chain.splitOn_join {text : α → Text} {c : Chain α} (h : ∀ a ∈ c.toList, b ∉ text a) :
    (c.join [b] text).splitOn b = c.toList.map text := by
  obtain ⟨a, as⟩ := c
  simp only [join, toList] at h ⊢
  induction as generalizing a with
  | nil => simpa using List.splitOn_eq_singleton (h a List.mem_cons_self)
  | cons a' as ih =>
    have htail := ih a' fun x hx => h x (List.mem_cons_of_mem a hx)
    have hsplit := List.splitOn_append_cons_self_of_not_mem (h a List.mem_cons_self)
      (text a' ++ as.flatMap fun x => [b] ++ text x)
    rw [htail] at hsplit
    simpa using hsplit

theorem IsRun.not_mem {p : UInt8 → Bool} {w : Text} (hw : IsRun p w) (hb : p b = false) : b ∉ w :=
  fun hmem => ne_of_class (hw.2 b hmem) hb rfl

theorem IsSigned.not_mem {w : Text} (hw : IsSigned w) (hdigit : Text.isDigit b = false)
    (hminus : b ≠ Text.byte '-') : b ∉ w := by
  rcases hw with hrun | ⟨ds, rfl, hds⟩
  · exact hrun.not_mem hdigit
  · simp [hminus, hds.not_mem hdigit]

/-- Factors are written with letters, digits and minus signs. -/
theorem Factor.not_mem_words {f : Factor} (hf : f.Valid context)
    (hb : b = Text.byte '+' ∨ b = Text.byte '*') : b ∉ f.words.flatten := by
  have hupper : Text.isUpper b = false := by rcases hb with rfl | rfl <;> decide
  have hdigit : Text.isDigit b = false := by rcases hb with rfl | rfl <;> decide
  have hminus : b ≠ Text.byte '-' := by rcases hb with rfl | rfl <;> decide
  have hmarks : b ∉ Text.ofString "r" ∧ b ∉ Text.ofString "c" := by
    rcases hb with rfl | rfl <;> decide
  cases f with
  | absolute a =>
    simp [words, Address.words, hf.1.not_mem hupper, hf.2.1.1.not_mem hdigit]
  | relative rows cols r =>
    simp [words, hmarks, hf.1.1.not_mem hdigit hminus, hf.2.1.1.not_mem hdigit hminus]
  | integer n =>
    simp [words, hf.1.not_mem hdigit hminus]

/-- Cut at the additions and then at the multiplications, the text falls apart into its factors. -/
theorem Expression.splitOn_text {terms : Chain (Chain Factor)}
    (he : (Expression.sum terms).Valid context) :
    ((Expression.sum terms).text.splitOn (Text.byte '+')).map (·.splitOn (Text.byte '*')) =
      terms.toList.map fun c => c.toList.map fun f => f.words.flatten := by
  have hplus : Text.ofString "+" = [Text.byte '+'] := rfl
  have htimes : Text.ofString "*" = [Text.byte '*'] := rfl
  have hterm (c : Chain Factor) (hc : c ∈ terms.toList) :
      Text.byte '+' ∉ c.join [Text.byte '*'] fun f => f.words.flatten := by
    have hfactor (f : Factor) (hf : f ∈ c.toList) : Text.byte '+' ∉ f.words.flatten :=
      Factor.not_mem_words (he c hc f hf) (.inl rfl)
    rw [Chain.join, List.mem_append, List.mem_flatMap]
    rintro (hmem | ⟨f, hf, hmem⟩)
    · exact hfactor c.head List.mem_cons_self hmem
    · rcases List.mem_append.mp hmem with hmem | hmem
      · exact absurd hmem (by decide)
      · exact hfactor f (List.mem_cons_of_mem c.head hf) hmem
  rw [text_sum, hplus, htimes, Chain.splitOn_join hterm, List.map_map]
  refine List.map_congr_left fun c hc => Chain.splitOn_join fun f hf => ?_
  exact Factor.not_mem_words (he c hc f hf) (.inr rfl)

end Texts

end Formula

section Arithmetic

namespace Value

def isInt : Value → Bool
  | .int _ => true
  | _ => false

def toInt : Value → Int
  | .int i => i.toInt
  | _ => 0

/-- A number modulo 2^64, as a signed word. -/
def ofInt (n : Int) : Value := .int (Int64.ofInt n)

theorem ofInt_toInt {v : Value} (hv : v.isInt) : ofInt v.toInt = v := by
  cases v with
  | int i => simp [ofInt, toInt]
  | empty => cases hv
  | str t => cases hv

theorem add_ofInt (m n : Int) : (ofInt m).add (ofInt n) = ofInt (m + n) := by
  simp [ofInt, add]

theorem mul_ofInt (m n : Int) : (ofInt m).mul (ofInt n) = ofInt (m * n) := by
  simp [ofInt, mul]

/-- An operation on integers, which gives the empty value for anything else. -/
def Strict (op : Value → Value → Value) : Prop :=
  ∀ v w, ¬ (v.isInt ∧ w.isInt) → op v w = .empty

theorem strict_add : Strict add := by
  intro v w h
  cases v <;> cases w <;> first | rfl | exact absurd ⟨rfl, rfl⟩ h

theorem strict_mul : Strict mul := by
  intro v w h
  cases v <;> cases w <;> first | rfl | exact absurd ⟨rfl, rfl⟩ h

end Value

namespace Formula

variable {op : Value → Value → Value}

/-- Values that are all integers are combined as their numbers are. -/
theorem Chain.combine_ofInt {f : Int → Int → Int}
    (hop : ∀ m n, op (.ofInt m) (.ofInt n) = .ofInt (f m n)) (c : Chain Int) :
    (c.map Value.ofInt).combine op = .ofInt (c.combine f) := by
  obtain ⟨n, ns⟩ := c
  simp only [combine, map]
  induction ns generalizing n with
  | nil => rfl
  | cons m ns ih => simp only [List.map_cons, fold, ih, hop]

/-- A neutral item at the end makes no difference. -/
theorem Chain.combine_eq_foldr {f : Int → Int → Int} {z : Int} (hz : ∀ n, f n z = n)
    (c : Chain Int) : c.combine f = c.toList.foldr f z := by
  obtain ⟨n, ns⟩ := c
  simp only [combine, toList]
  induction ns generalizing n with
  | nil => exact (hz n).symm
  | cons m ns ih => simp only [fold, ih, List.foldr_cons]

theorem Chain.combine_add (c : Chain Int) : c.combine (· + ·) = c.toList.sum := by
  rw [List.sum_eq_foldr, combine_eq_foldr Int.add_zero]

theorem Chain.combine_mul (c : Chain Int) : c.combine (· * ·) = c.toList.prod := by
  rw [List.prod_eq_foldr, combine_eq_foldr Int.mul_one]

theorem Chain.combine_isInt (hop : Value.Strict op) {c : Chain Value}
    (hc : ∃ v ∈ c.toList, ¬ v.isInt) : ¬ (c.combine op).isInt := by
  obtain ⟨v, vs⟩ := c
  simp only [combine, toList] at hc ⊢
  induction vs generalizing v with
  | nil => simpa [fold] using hc
  | cons w ws ih =>
    have hempty : op v (fold op w ws) = .empty := by
      apply hop
      rintro ⟨hv, hw⟩
      obtain ⟨x, hx, hnot⟩ := hc
      rcases List.mem_cons.mp hx with rfl | hx
      · exact hnot hv
      · exact ih w ⟨x, hx, hnot⟩ hw
    rw [fold, hempty]
    simp [Value.isInt]

/-- Two items or more with one among them that is no integer come to nothing. -/
theorem Chain.combine_of_not_isInt (hop : Value.Strict op) {v w : Value} {ws : List Value}
    (h : ∃ x ∈ v :: w :: ws, ¬ x.isInt) : (Chain.mk v (w :: ws)).combine op = .empty := by
  apply hop
  rintro ⟨hv, hw⟩
  obtain ⟨x, hx, hnot⟩ := h
  rcases List.mem_cons.mp hx with rfl | hx
  · exact hnot hv
  · exact Chain.combine_isInt (c := ⟨w, ws⟩) hop ⟨x, hx, hnot⟩ hw

/-- What a sum of products of values means. A single factor stands for itself. Otherwise integers
are multiplied and added as numbers and the result is taken modulo 2^64; with any other factor there
is no value. -/
def sumOfProducts : List (List Value) → Value
  | [[v]] => v
  | terms =>
    if ∀ factors ∈ terms, ∀ v ∈ factors, v.isInt then
      .ofInt (terms.map fun factors => (factors.map Value.toInt).prod).sum
    else .empty

theorem value_sum_of_isInt {terms : Chain (Chain Value)}
    (h : ∀ c ∈ terms.toList, ∀ v ∈ c.toList, v.isInt) :
    (Expression.sum terms).value =
      .ofInt (terms.toList.map fun c => (c.toList.map Value.toInt).prod).sum := by
  have hproduct (c : Chain Value) (hc : c ∈ terms.toList) :
      c.combine Value.mul = .ofInt (c.toList.map Value.toInt).prod := by
    have hmap : (c.map Value.toInt).map Value.ofInt = c.map id := by
      rw [Chain.map_map]
      exact Chain.map_congr fun v hv => Value.ofInt_toInt (h c hc v hv)
    have hcombine := Chain.combine_ofInt Value.mul_ofInt (c.map Value.toInt)
    rw [hmap, Chain.combine_mul, Chain.toList_map] at hcombine
    simpa [Chain.map] using hcombine
  have hmap : terms.map (·.combine Value.mul) =
      (terms.map fun c => (c.toList.map Value.toInt).prod).map Value.ofInt := by
    rw [Chain.map_map]
    exact Chain.map_congr hproduct
  rw [Expression.value, hmap, Chain.combine_ofInt Value.add_ofInt, Chain.combine_add,
    Chain.toList_map]

/-- A factor that is no integer is the only one, or the whole is empty. -/
theorem value_sum_of_not_isInt {terms : Chain (Chain Value)}
    (h : ∃ c ∈ terms.toList, ∃ v ∈ c.toList, ¬ v.isInt) :
    (∃ v, terms = ⟨⟨v, []⟩, []⟩) ∨ (Expression.sum terms).value = .empty := by
  obtain ⟨c, hc, hv⟩ := h
  have hproduct := Chain.combine_isInt Value.strict_mul hv
  obtain ⟨d, ds⟩ := terms
  cases ds with
  | cons d' ds =>
    refine .inr (Chain.combine_of_not_isInt Value.strict_add ⟨_, ?_, hproduct⟩)
    exact List.mem_map_of_mem hc
  | nil =>
    obtain rfl := List.mem_singleton.mp hc
    obtain ⟨v, vs⟩ := c
    cases vs with
    | nil => exact .inl ⟨v, rfl⟩
    | cons w ws => exact .inr (Chain.combine_of_not_isInt Value.strict_mul hv)

/-- The value of an expression, combined from the right at both levels, is the sum of its
products. -/
theorem value_sum (terms : Chain (Chain Value)) :
    (Expression.sum terms).value = sumOfProducts (terms.toList.map Chain.toList) := by
  by_cases hsingle : ∃ v, terms = ⟨⟨v, []⟩, []⟩
  · obtain ⟨v, rfl⟩ := hsingle
    rfl
  · have hlonger (v : Value) (hv : terms.toList.map Chain.toList = [[v]]) : False := by
      obtain ⟨⟨w, ws⟩, cs⟩ := terms
      simp only [Chain.toList, List.map_cons, List.cons.injEq, List.map_eq_nil_iff] at hv
      obtain ⟨⟨-, rfl⟩, rfl⟩ := hv
      exact hsingle ⟨w, rfl⟩
    rw [sumOfProducts]
    · by_cases h : ∀ c ∈ terms.toList, ∀ v ∈ c.toList, v.isInt
      · rw [if_pos (by simpa using h), value_sum_of_isInt h, List.map_map]
        rfl
      · rw [if_neg (by simpa using h)]
        push Not at h
        exact (value_sum_of_not_isInt (by simpa using h)).resolve_left hsingle
    · exact hlonger

end Formula

end Arithmetic

end Spreadsheet
