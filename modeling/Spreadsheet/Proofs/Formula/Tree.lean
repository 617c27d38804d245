import Spreadsheet.Proofs.Formula.Syntax

/-! # Parse trees of formulas

The tree that a match of each syntax builds. The text of a tree is the words of the syntax joined,
and its value is the value of the syntax over the values at its factors.
-/
namespace Spreadsheet.Formula

def Numeral.tree (symbol : Symbol) (n : Numeral) : Tree :=
  Node.token symbol n.word { value := .int n.value }

def markTree (symbol : Symbol) (word : String) : Tree := Node.token symbol (Text.ofString word) {}

def Address.tree (a : Address) : Tree :=
  Node.branch .absoluteCell 0
    [Node.branch .columnLabel 0 [Node.token .upperAlphaString a.label {}] {},
      Node.branch .rowNumber 0 [a.number.tree .positiveInteger] { value := .int a.number.value }]
    { ref := some a.ref }

namespace Factor

/-- The tree of a reference; an integer has none. -/
def referenceTree : Factor → Tree
  | .absolute a => Node.branch .cellReference 0 [a.tree] { ref := some a.ref }
  | .relative rows cols r =>
    Node.branch .cellReference 1
      [Node.branch .relativeCell 0
        [markTree .rowMark "r", rows.tree .integer, markTree .columnMark "c", cols.tree .integer]
        { ref := some r }]
      { ref := some r }
  | .integer _ => Node.epsilon .cellReference

def tree (env : Ref → Value) (f : Factor) : Tree :=
  match f with
  | .absolute a =>
    Node.branch .value 0 [referenceTree f] { value := f.value env, ref := some a.ref }
  | .relative _ _ r => Node.branch .value 0 [referenceTree f] { value := f.value env, ref := some r }
  | .integer n => Node.branch .value 1 [n.tree .integer] { value := f.value env }

end Factor

def tailTree (tail mark : Symbol) (word : String) (op : Value → Value → Value) : List Tree → Tree
  | [] => Node.vacuous tail 1 [Node.epsilon .epsilon]
  | t :: ts =>
    Node.branch tail 0 [markTree mark word, t, tailTree tail mark word op ts]
      { value := Chain.fold op t.attr.value (ts.map (·.attr.value)) }

def chainTree (symbol tail mark : Symbol) (word : String) (op : Value → Value → Value)
    (c : Chain Tree) : Tree :=
  Node.branch symbol 0 [c.head, tailTree tail mark word op c.tail]
    { value := (c.map (·.attr.value)).combine op }

def termTree : Chain Tree → Tree := chainTree .term .termTail .times "*" Value.mul

def sumTree : Chain Tree → Tree := chainTree .expression .expressionTail .plus "+" Value.add

def quotedTree (body : Text) : Tree :=
  Node.branch .quotedString 0
    [markTree .quoteMark "\"", Node.token .stringNoQuote body {}, markTree .quoteMark "\""]
    { value := .str (quote body) }

namespace Expression

def ofTrees : Expression Tree → Tree
  | .sum terms => sumTree (terms.map termTree)
  | .quoted body => Node.branch .expression 1 [quotedTree body] { value := .str (quote body) }

def tree (env : Ref → Value) (e : Expression Factor) : Tree := ofTrees (e.map (Factor.tree env))

end Expression

namespace Statement

def kindIndex : ReportKind → Nat
  | .value => 0
  | .expression => 1

def kindSymbol : ReportKind → Symbol
  | .value => .printValueWord
  | .expression => .printExprWord

def tree (env : Ref → Value) : Statement → Tree
  | .assign target e =>
    Node.branch .assignmentBody 0 [target.tree, markTree .becomes ":=", e.tree env]
      { value := e.eval env, ref := some target.ref }
  | .print kind e =>
    Node.branch .printHead (kindIndex kind)
      [markTree (kindSymbol kind) kind.keyword, e.tree env] {}

/-- The tree of a program that starts with a statement, over the trees of its two parts. -/
def programTree (st : Statement) (head rest : Tree) : Tree :=
  match st with
  | .assign _ _ => Node.branch .program 0 [Node.branch .assignment 0 [head, rest] {}] {}
  | .print _ _ => Node.branch .program 1 [Node.branch .print 0 [head, rest] {}] {}

end Statement

section Texts

variable {symbol : Symbol} {children : List Tree} {attr : Attribute}

@[simp] theorem branch_isEpsilon (i : Nat) : (Node.branch symbol i children attr).isEpsilon = false :=
  rfl

@[simp] theorem branch_attr (i : Nat) : (Node.branch symbol i children attr).attr = attr := rfl

@[simp] theorem branch_text (i : Nat) :
    (Node.branch symbol i children attr).text = Node.joinedText children := rfl

@[simp] theorem token_isEpsilon (t : Text) : (Node.token symbol t attr).isEpsilon = false := rfl

@[simp] theorem token_text (t : Text) : (Node.token symbol t attr).text = t := rfl

@[simp] theorem joinedText_nil : Node.joinedText ([] : List Tree) = [] := rfl

theorem joinedText_cons (n : Tree) (ns : List Tree) (hn : n.isEpsilon = false) :
    Node.joinedText (n :: ns) = n.text ++ Node.joinedText ns := by
  rw [Node.joinedText, hn]
  rfl

@[simp] theorem Address.tree_text (a : Address) : a.tree.text = a.words.flatten := by
  simp [Address.tree, Address.words, Node.joinedText, Numeral.tree]

@[simp] theorem Address.tree_isEpsilon (a : Address) : a.tree.isEpsilon = false := rfl

@[simp] theorem Factor.tree_isEpsilon (env : Ref → Value) (f : Factor) :
    (f.tree env).isEpsilon = false := by
  cases f <;> rfl

@[simp] theorem Factor.tree_text (env : Ref → Value) (f : Factor) :
    (f.tree env).text = f.words.flatten := by
  cases f <;>
    simp [Factor.tree, Factor.referenceTree, Factor.words, Node.joinedText, markTree, Numeral.tree]

@[simp] theorem Factor.tree_value (env : Ref → Value) (f : Factor) :
    (f.tree env).attr.value = f.value env := by
  cases f <;> rfl

@[simp] theorem chainTree_isEpsilon (tail mark : Symbol) (word : String)
    (op : Value → Value → Value) (c : Chain Tree) :
    (chainTree symbol tail mark word op c).isEpsilon = false := rfl

theorem joinedText_tailTree (tail mark : Symbol) (word : String) (op : Value → Value → Value)
    {ts : List Tree} (hts : ∀ t ∈ ts, t.isEpsilon = false) :
    Node.joinedText [tailTree tail mark word op ts] =
      ts.flatMap fun t => Text.ofString word ++ t.text := by
  induction ts with
  | nil => rfl
  | cons t ts ih =>
    have ht := hts t (by simp)
    have htail := ih fun u hu => hts u (by simp [hu])
    rw [tailTree, joinedText_cons _ _ rfl, branch_text, joinedText_cons _ _ rfl,
      joinedText_cons _ _ ht, htail]
    simp [markTree]

/-- A chain is written out as its items with the mark between them. -/
theorem chainTree_text (tail mark : Symbol) (word : String) (op : Value → Value → Value)
    {c : Chain Tree} (hc : ∀ t ∈ c.toList, t.isEpsilon = false) :
    (chainTree symbol tail mark word op c).text = c.join (Text.ofString word) (·.text) := by
  rw [chainTree, branch_text, joinedText_cons _ _ (hc _ (by simp [Chain.toList])),
    joinedText_tailTree _ _ _ _ fun t ht => hc t (by simp [Chain.toList, ht])]
  rfl

@[simp] theorem quotedTree_text (body : Text) : (quotedTree body).text = quote body := by
  simp [quotedTree, Node.joinedText, markTree, quote]
  rfl

namespace Expression

@[simp] theorem tree_isEpsilon (env : Ref → Value) (e : Expression Factor) :
    (e.tree env).isEpsilon = false := by
  cases e <;> rfl

@[simp] theorem tree_text (env : Ref → Value) (e : Expression Factor) :
    (e.tree env).text = e.text := by
  cases e with
  | sum terms =>
    have hterm (c : Chain Factor) : (termTree (c.map (Factor.tree env))).text =
        c.join (Text.ofString "*") fun f => f.words.flatten := by
      rw [termTree, chainTree_text _ _ _ _ (by simp), Chain.join_map]
      congr 1
      funext f
      exact Factor.tree_text env f
    rw [text_sum, tree, map, ofTrees, sumTree, chainTree_text _ _ _ _ (by simp [termTree]),
      Chain.join_map, Chain.join_map]
    congr 1
    funext c
    exact hterm c
  | quoted body =>
    rw [text_quoted, tree, map, ofTrees, branch_text, joinedText_cons _ _ rfl]
    simp

theorem tree_attr (env : Ref → Value) (e : Expression Factor) :
    (e.tree env).attr = { value := e.eval env } := by
  cases e with
  | sum terms =>
    have hterm (c : Chain Factor) : (termTree (c.map (Factor.tree env))).attr.value =
        (c.map (Factor.value env)).combine Value.mul := by
      simp only [termTree, chainTree, branch_attr, Chain.map_map]
      congr 1
      exact Chain.map_congr fun f _ => Factor.tree_value env f
    simp only [tree, map, ofTrees, sumTree, chainTree, branch_attr, eval, value, Chain.map_map]
    congr 2
    exact Chain.map_congr fun c _ => hterm c
  | quoted body => rfl

end Expression

namespace Statement

@[simp] theorem tree_isEpsilon (env : Ref → Value) (st : Statement) :
    (st.tree env).isEpsilon = false := by
  cases st <;> rfl

@[simp] theorem tree_text (env : Ref → Value) (st : Statement) :
    (st.tree env).text = st.words.flatten := by
  cases st with
  | assign target e =>
    simp [tree, words, Node.joinedText, markTree, Expression.text]
  | print kind e =>
    simp [tree, words, Node.joinedText, markTree, Expression.text]

@[simp] theorem programTree_isEpsilon (st : Statement) (head rest : Tree) :
    (programTree st head rest).isEpsilon = false := by
  cases st <;> rfl

theorem programTree_text (st : Statement) (head rest : Tree) :
    (programTree st head rest).text = Node.joinedText [head, rest] := by
  cases st <;> simp [programTree, Node.joinedText]

end Statement

end Texts

end Spreadsheet.Formula
