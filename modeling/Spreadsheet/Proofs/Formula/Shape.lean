import Spreadsheet.Formula.Grammar
import Spreadsheet.Proofs.Grammar.Shape

/-! # Nodes of formulas

Actions reach for the children of a node by their places, and for the reference or the integer that
a child carries. A strict action has no result where something that it reaches for is missing. Every
node of the grammar has a child for each symbol of the alternative that it chose and carries what
nodes of its symbol carry, so the strict actions miss nothing: they do what the actions of the
grammar do on all nodes that these see.
-/
namespace Spreadsheet

/-- Goes on with what is there. Where nothing is, the computation has no result. -/
def demand {E α : Type} (o : Option α) : Computation E α := fun s => o.map fun a => (a, s)

@[simp] theorem demand_some {E α : Type} (a : α) : (demand (some a) : Computation E α) = pure a := rfl

namespace Formula

section Actions

def strictLiftFirst : FormulaAction := fun n => do
  let c ← demand n.children[0]?
  pure (some c.attr)

def strictCombining (op : Value → Value → Value) (head tail : Nat) : FormulaAction := fun n => do
  let h ← demand n.children[head]?
  let t ← demand n.children[tail]?
  pure (some { value := if t.isEpsilon then h.attr.value else op h.attr.value t.attr.value })

def strictAbsolute : FormulaAction := fun n => do
  let label ← demand n.children[0]?
  let number ← demand n.children[1]?
  let i ← demand number.attr.value.int?
  match Ref.ofLabel label.text i with
  | .ok r => pure (some { ref := some r })
  | .error e =>
    modify (·.note .debug
      (Text.ofString "rejecting cell " ++ n.text ++ Text.ofString ": " ++ e.message))
    pure none

def strictRelative : FormulaAction := fun n => do
  match (← get).context with
  | none => pure none
  | some origin =>
    let rows ← demand n.children[1]?
    let cols ← demand n.children[3]?
    let i ← demand rows.attr.value.int?
    let j ← demand cols.attr.value.int?
    match origin.shift? i j with
    | none => pure none
    | some r => pure (some { ref := some r })

def strictValue (fx : Effects) : FormulaAction := fun n => do
  let c ← demand n.children[0]?
  if n.alternative = some 0 then
    let r ← demand c.attr.ref
    let cell ← fx.compute r
    pure (some { value := cell.value, ref := some r })
  else pure (some { value := c.attr.value })

def strictExpression : FormulaAction := fun n =>
  if n.alternative = some 1 then do
    let c ← demand n.children[0]?
    pure (some { value := c.attr.value })
  else strictCombining Value.add 0 1 n

def strictAssign : FormulaAction := fun n => do
  let target ← demand n.children[0]?
  let expr ← demand n.children[2]?
  let r ← demand target.attr.ref
  modify (·.assign r ⟨expr.text, expr.attr.value⟩)
  pure (some { value := expr.attr.value, ref := some r })

def strictPrint (fx : Effects) : FormulaAction := fun n => do
  let expr ← demand n.children[1]?
  fx.announce (if n.alternative = some 1 then .expression else .value) expr
  pure (some {})

/-- The strict action of each symbol. That of a quoted string reaches for nothing. -/
def strictAction (fx : Effects) : Symbol → Option FormulaAction
  | .rowNumber | .cellReference => some strictLiftFirst
  | .absoluteCell => some strictAbsolute
  | .relativeCell => some strictRelative
  | .value => some (strictValue fx)
  | .termTail => some (strictCombining Value.mul 1 2)
  | .term => some (strictCombining Value.mul 0 1)
  | .expressionTail => some (strictCombining Value.add 1 2)
  | .quotedString => some quotedValue
  | .expression => some strictExpression
  | .assignmentBody => some strictAssign
  | .printHead => some (strictPrint fx)
  | _ => none

def strictGrammar (fx : Effects) : Grammar Symbol Sheet Attribute :=
  (grammar fx).withActions (strictAction fx)

end Actions

section Complete

/-- The symbol of the node that a match gives. An assignment is read by the rule for its body. -/
def Symbol.node : Symbol → Symbol
  | .assignmentHead => assignmentScope.body
  | symbol => symbol

/-- Whether nodes of a symbol carry a reference. A value does so at its first alternative. -/
def Symbol.carriesRef (alternative : Option Nat) : Symbol → Bool
  | .absoluteCell | .relativeCell | .cellReference | .assignmentBody => true
  | .value => alternative == some 0
  | _ => false

def Symbol.carriesInt : Symbol → Bool
  | .integer | .positiveInteger | .rowNumber => true
  | _ => false

def Symbol.alternatives (symbol : Symbol) : List (List Symbol) :=
  match rule .inert symbol with
  | .production p => p.alternatives
  | _ => []

structure Attribute.Fits (symbol : Symbol) (alternative : Option Nat) (a : Attribute) : Prop where
  ref_isSome : a.ref.isSome = symbol.carriesRef alternative
  int_isSome : symbol.carriesInt = true → a.value.int?.isSome = true

/-- A node with a child for each symbol of the alternative that it chose, or with none if there are
no alternatives, and with what nodes of its symbol carry. -/
structure Complete (n : Tree) : Prop where
  leaf : n.alternative = none → n.symbol.alternatives = [] ∧ n.children = []
  branch : ∀ index, n.alternative = some index → ∃ symbols,
    n.symbol.alternatives[index]? = some symbols ∧
      n.children.map (·.symbol) = symbols.map Symbol.node
  fits : n.attr.Fits n.symbol n.alternative

structure Shape (symbol : Symbol) (n : Tree) : Prop where
  symbol_eq : n.symbol = symbol.node
  complete : ∀ m ∈ n.nodes, Complete m

variable {symbol : Symbol} {alternative : Option Nat} {n c : Tree}

theorem Shape.fits (h : Shape symbol n) : n.attr.Fits symbol.node n.alternative := by
  rw [← h.symbol_eq]
  exact (h.complete n n.mem_nodes).fits

/-- An attribute of which only the reference is asked. -/
theorem Attribute.fits_of_ref {a : Attribute} (href : a.ref.isSome = symbol.carriesRef alternative)
    (hint : symbol.carriesInt = false) : a.Fits symbol alternative := by
  refine ⟨href, fun h => ?_⟩
  rw [hint] at h
  cases h

theorem shape_leaf (hnode : symbol.node = symbol) (halternatives : symbol.alternatives = [])
    {text : Text} {a : Attribute} {isEpsilon : Bool} (ha : a.Fits symbol none) :
    Shape symbol ⟨symbol, none, text, [], a, isEpsilon⟩ := by
  refine ⟨hnode.symm, fun m hm => ?_⟩
  rw [List.mem_singleton.mp hm]
  exact ⟨fun _ => ⟨halternatives, rfl⟩, fun _ h => (by cases h), ha⟩

/-- Children that match the symbols of an alternative. -/
theorem shape_children {symbols : List Symbol} {children : List Tree}
    (h : List.Forall₂ Shape symbols children) :
    children.map (·.symbol) = symbols.map Symbol.node ∧
      ∀ c ∈ children, ∀ m ∈ c.nodes, Complete m := by
  induction h with
  | nil => exact ⟨rfl, by simp⟩
  | cons hc _ ih =>
    refine ⟨?_, List.forall_mem_cons.mpr ⟨hc.complete, ih.2⟩⟩
    rw [List.map_cons, List.map_cons, hc.symbol_eq, ih.1]

theorem shape_node (hnode : symbol.node = symbol) {index : Nat} {symbols : List Symbol}
    {children : List Tree} (hsymbols : symbol.alternatives[index]? = some symbols)
    (hchildren : List.Forall₂ Shape symbols children) {text : Text} {a : Attribute} {isEpsilon : Bool}
    (ha : a.Fits symbol (some index)) :
    Shape symbol ⟨symbol, some index, text, children, a, isEpsilon⟩ := by
  obtain ⟨hmap, hcomplete⟩ := shape_children hchildren
  refine ⟨hnode.symm, fun m hm => ?_⟩
  rw [Node.nodes_eq, List.mem_cons, List.mem_flatMap] at hm
  rcases hm with rfl | ⟨c, hc, hm⟩
  · refine ⟨fun h => (by cases h), fun i hi => ?_, ha⟩
    cases hi
    exact ⟨symbols, hsymbols, hmap⟩
  · exact hcomplete c hc m hm

end Complete

section Suits

/-- On a node, the strict action does what the action does, and what that gives fits the node. -/
structure Suits (strict act : FormulaAction) (n : Tree) : Prop where
  eq : strict n = act n
  fits : Ensures (act n) fun result => ∀ a ∈ result, a.Fits n.symbol n.alternative

variable {n c d : Tree}

theorem suits_liftFirst (hc : n.children[0]? = some c) (hfits : c.attr.Fits n.symbol n.alternative) :
    Suits strictLiftFirst liftFirst n := by
  have hattr : n.childAttr 0 = c.attr := by simp only [Node.childAttr, hc]
  constructor
  · simp only [strictLiftFirst, liftFirst, hc, hattr, demand_some, pure_bind]
  · refine .pure fun a ha => ?_
    cases ha
    rw [hattr]
    exact hfits

/-- Without a child the strict action has no result, and the other one gives an empty attribute. -/
example : (strictLiftFirst (.branch .rowNumber 0 [] {}) {}).isNone ∧
    (liftFirst (.branch .rowNumber 0 [] {}) {}).map (·.1) = some (some {}) := ⟨rfl, rfl⟩

theorem suits_combining (op : Value → Value → Value) {head tail : Nat}
    (hhead : n.children[head]? = some c) (htail : n.children[tail]? = some d)
    (href : n.symbol.carriesRef n.alternative = false) (hint : n.symbol.carriesInt = false) :
    Suits (strictCombining op head tail) (combining op head tail) n := by
  constructor
  · simp only [strictCombining, combining, combine, Node.childAttr, hhead, htail, demand_some,
        pure_bind]
  · exact .pure fun a ha => by cases ha; exact Attribute.fits_of_ref href.symm hint

theorem suits_absolute (hsymbol : n.symbol = .absoluteCell) (hlabel : n.children[0]? = some c)
    (hnumber : n.children[1]? = some d) (hint : d.attr.value.int?.isSome = true) :
    Suits strictAbsolute resolveAbsolute n := by
  obtain ⟨i, hi⟩ := Option.isSome_iff_exists.mp hint
  constructor
  · cases href : Ref.ofLabel c.text i <;>
      simp only [strictAbsolute, resolveAbsolute, Node.childAttr, Node.childText, hlabel, hnumber, hi,
        href, demand_some, pure_bind, Option.getD_some]
  · unfold resolveAbsolute
    dsimp only
    split
    · refine .pure fun a ha => ?_
      cases ha
      rw [hsymbol]
      exact Attribute.fits_of_ref rfl rfl
    · exact (Ensures.true (modify _)).bind fun _ _ => .pure (by simp)

theorem suits_relative (hsymbol : n.symbol = .relativeCell) (hrows : n.children[1]? = some c)
    (hcols : n.children[3]? = some d) (hint : c.attr.value.int?.isSome = true)
    (hint' : d.attr.value.int?.isSome = true) : Suits strictRelative resolveRelative n := by
  obtain ⟨i, hi⟩ := Option.isSome_iff_exists.mp hint
  obtain ⟨j, hj⟩ := Option.isSome_iff_exists.mp hint'
  constructor
  · refine bind_congr fun s => ?_
    cases s.context with
    | none => rfl
    | some origin =>
      cases hshift : origin.shift? i j <;>
        simp only [Node.childAttr, hrows, hcols, hi, hj, hshift, demand_some, pure_bind,
          Option.getD_some]
  · refine (Ensures.true get).bind fun s _ => ?_
    cases s.context with
    | none => exact .pure (by simp)
    | some origin =>
      dsimp only
      split
      · exact .pure (by simp)
      · refine .pure fun a ha => ?_
        cases ha
        rw [hsymbol]
        exact Attribute.fits_of_ref rfl rfl

theorem suits_value (fx : Effects) (hsymbol : n.symbol = .value) (hc : n.children[0]? = some c)
    (href : n.alternative = some 0 → c.attr.ref.isSome = true) :
    Suits (strictValue fx) (readValue fx) n := by
  have hattr : n.childAttr 0 = c.attr := by simp only [Node.childAttr, hc]
  by_cases h : n.alternative = some 0
  · obtain ⟨r, hr⟩ := Option.isSome_iff_exists.mp (href h)
    constructor
    · simp only [strictValue, readValue, hattr, hc, hr, h, demand_some, pure_bind, if_true]
    · simp only [readValue, hattr, hr, h, if_true]
      refine (Ensures.true (fx.compute r)).bind fun cell _ => .pure fun a ha => ?_
      cases ha
      rw [hsymbol]
      exact Attribute.fits_of_ref rfl rfl
  · have hnone : n.symbol.carriesRef n.alternative = false := by
      rw [hsymbol]
      exact beq_false_of_ne h
    constructor
    · simp only [strictValue, readValue, hattr, hc, h, demand_some, pure_bind, if_false]
    · simp only [readValue, h, if_false]
      refine .pure fun a ha => ?_
      cases ha
      exact Attribute.fits_of_ref hnone.symm (by rw [hsymbol]; rfl)

theorem suits_quoted (hsymbol : n.symbol = .quotedString) : Suits quotedValue quotedValue n where
  eq := rfl
  fits := .pure fun a ha => by
    cases ha
    rw [hsymbol]
    exact Attribute.fits_of_ref rfl rfl

theorem suits_expression (hsymbol : n.symbol = .expression) (hc : n.children[0]? = some c)
    (htail : n.alternative ≠ some 1 → ∃ d, n.children[1]? = some d) :
    Suits strictExpression expressionValue n := by
  have hnone : n.symbol.carriesRef n.alternative = false := by rw [hsymbol]; rfl
  have hint : n.symbol.carriesInt = false := by rw [hsymbol]; rfl
  by_cases h : n.alternative = some 1
  · constructor
    · simp only [strictExpression, expressionValue, Node.childAttr, hc, h, demand_some, pure_bind,
        if_true]
    · simp only [expressionValue, h, if_true]
      exact .pure fun a ha => by cases ha; exact Attribute.fits_of_ref (h ▸ hnone).symm hint
  · obtain ⟨d, hd⟩ := htail h
    have hsum := suits_combining Value.add hc hd hnone hint
    constructor
    · simp only [strictExpression, expressionValue, h, if_false]
      exact hsum.eq
    · simp only [expressionValue, h, if_false]
      exact hsum.fits

theorem suits_assign (hsymbol : n.symbol = .assignmentBody) (htarget : n.children[0]? = some c)
    (hexpr : n.children[2]? = some d) (href : c.attr.ref.isSome = true) :
    Suits strictAssign assignTarget n := by
  obtain ⟨r, hr⟩ := Option.isSome_iff_exists.mp href
  constructor
  · simp only [strictAssign, assignTarget, Node.childAttr, Node.childText, htarget, hexpr, hr,
      demand_some, pure_bind]
  · simp only [assignTarget, Node.childAttr, htarget, hr]
    refine (Ensures.true (modify _)).bind fun _ _ => .pure fun a ha => ?_
    cases ha
    rw [hsymbol]
    exact Attribute.fits_of_ref rfl rfl

theorem suits_print (fx : Effects) (hsymbol : n.symbol = .printHead)
    (hexpr : n.children[1]? = some c) :
    Suits (strictPrint fx) (announceExpression fx) n := by
  constructor
  · simp only [strictPrint, announceExpression, hexpr, demand_some, pure_bind]
  · simp only [announceExpression, hexpr]
    refine (Ensures.true (fx.announce _ c)).bind fun _ _ => .pure fun a ha => ?_
    cases ha
    rw [hsymbol]
    exact Attribute.fits_of_ref rfl rfl

end Suits

section Rules

variable {symbol : Symbol} {index : Nat} {symbols : List Symbol} {children : List Tree} {name : Text}
  {alternatives : List (List Symbol)} {input word rest : Text} {a : Attribute}

theorem accepts_suited {act strict : FormulaAction} (hnode : symbol.node = symbol)
    (hsymbols : symbol.alternatives[index]? = some symbols)
    (hchildren : List.Forall₂ Shape symbols children)
    (h : Suits strict act (.branch symbol index children default)) :
    Production.Accepts ⟨name, alternatives, some act⟩ (some strict) (Shape symbol) symbol index false
      children :=
  Production.accepts_action h.eq fun s result t hrun a ha =>
    shape_node hnode hsymbols hchildren (h.fits s result t hrun a ha)

theorem accepts_without_action (hnode : symbol.node = symbol)
    (hsymbols : symbol.alternatives[index]? = some symbols)
    (hchildren : List.Forall₂ Shape symbols children)
    (href : symbol.carriesRef (some index) = false) (hint : symbol.carriesInt = false) :
    Production.Accepts ⟨name, alternatives, none⟩ (none : Option FormulaAction) (Shape symbol) symbol
      index false children :=
  Production.accepts_plain (shape_node hnode hsymbols hchildren (Attribute.fits_of_ref href.symm hint))

theorem accepts_empty {act strict : Option FormulaAction} (hnode : symbol.node = symbol)
    (hsymbols : symbol.alternatives[index]? = some symbols)
    (hchildren : List.Forall₂ Shape symbols children)
    (href : symbol.carriesRef (some index) = false) (hint : symbol.carriesInt = false) :
    Production.Accepts ⟨name, alternatives, act⟩ strict (Shape symbol) symbol index true children :=
  Production.accepts_vacuous
    (shape_node hnode hsymbols hchildren (Attribute.fits_of_ref href.symm hint))

theorem interpret_of_read {t : Token Attribute} (h : t.read input = some (word, a, rest)) :
    t.interpret word = some a := by
  simp only [Token.read] at h
  generalize (if t.skipsBlanks then input.trim else input) = trimmed at h
  split at h
  · cases h
  · obtain ⟨b, hb, heq⟩ := Option.map_eq_some_iff.mp h
    cases heq
    exact hb

theorem fits_integer (href : symbol.carriesRef none = false) (h : integerAttribute word = some a) :
    a.Fits symbol none := by
  obtain ⟨i, -, rfl⟩ := Option.map_eq_some_iff.mp h
  exact ⟨href.symm, fun _ => rfl⟩

/-- Each rule makes complete nodes from complete ones, with the actions of the grammar as with
strict ones. -/
theorem shapes_rule (fx : Effects) (symbol : Symbol) :
    ((grammar fx).rule symbol).Shapes (grammar fx).isVacuous Shape symbol (strictAction fx symbol) := by
  -- a goal for each alternative of each symbol; taking the children apart leaves as many as it has
  -- symbols
  cases symbol with
  | epsilon => exact shape_leaf rfl rfl (Attribute.fits_of_ref rfl rfl)
  | integer | positiveInteger =>
    exact fun _ _ _ _ h => shape_leaf rfl rfl (fits_integer rfl (interpret_of_read h))
  | upperAlphaString | stringNoQuote | rowMark | columnMark | times | plus | quoteMark | becomes
    | printValueWord | printExprWord =>
    intro _ _ a _ h
    obtain rfl : {} = a := Option.some.inj (interpret_of_read h)
    exact shape_leaf rfl rfl (Attribute.fits_of_ref rfl rfl)
  | columnLabel =>
    exact List.forall_mem_singleton.mpr fun _ h => accepts_without_action rfl rfl h rfl rfl
  | rowNumber =>
    refine List.forall_mem_singleton.mpr fun _ h => accepts_suited rfl rfl h ?_
    obtain _ | ⟨hc, _ | _⟩ := h
    exact suits_liftFirst rfl ⟨hc.fits.ref_isSome, hc.fits.int_isSome⟩
  | absoluteCell =>
    refine List.forall_mem_singleton.mpr fun _ h => accepts_suited rfl rfl h ?_
    obtain _ | ⟨hlabel, _ | ⟨hnumber, _ | _⟩⟩ := h
    exact suits_absolute rfl rfl rfl (hnumber.fits.int_isSome rfl)
  | relativeCell =>
    refine List.forall_mem_singleton.mpr fun _ h => accepts_suited rfl rfl h ?_
    obtain _ | ⟨_, _ | ⟨hrows, _ | ⟨_, _ | ⟨hcols, _ | _⟩⟩⟩⟩ := h
    exact suits_relative rfl rfl rfl (hrows.fits.int_isSome rfl) (hcols.fits.int_isSome rfl)
  | cellReference =>
    refine List.forall_mem_cons.mpr ⟨fun _ h => ?_, List.forall_mem_singleton.mpr fun _ h => ?_⟩
    · refine accepts_suited rfl rfl h ?_
      obtain _ | ⟨hc, _ | _⟩ := h
      exact suits_liftFirst rfl (Attribute.fits_of_ref hc.fits.ref_isSome rfl)
    · refine accepts_suited rfl rfl h ?_
      obtain _ | ⟨hc, _ | _⟩ := h
      exact suits_liftFirst rfl (Attribute.fits_of_ref hc.fits.ref_isSome rfl)
  | value =>
    refine List.forall_mem_cons.mpr ⟨fun _ h => ?_, List.forall_mem_singleton.mpr fun _ h => ?_⟩
    · refine accepts_suited rfl rfl h ?_
      obtain _ | ⟨hc, _ | _⟩ := h
      exact suits_value fx rfl rfl fun _ => hc.fits.ref_isSome
    · refine accepts_suited rfl rfl h ?_
      obtain _ | ⟨_, _ | _⟩ := h
      exact suits_value fx rfl rfl fun halternative => by cases halternative
  | termTail | expressionTail =>
    refine List.forall_mem_cons.mpr ⟨fun _ h => ?_, List.forall_mem_singleton.mpr fun _ h => ?_⟩
    · refine accepts_suited rfl rfl h ?_
      obtain _ | ⟨_, _ | ⟨_, _ | ⟨_, _ | _⟩⟩⟩ := h
      exact suits_combining _ rfl rfl rfl rfl
    · exact accepts_empty rfl rfl h rfl rfl
  | term =>
    refine List.forall_mem_singleton.mpr fun _ h => accepts_suited rfl rfl h ?_
    obtain _ | ⟨_, _ | ⟨_, _ | _⟩⟩ := h
    exact suits_combining _ rfl rfl rfl rfl
  | quotedString =>
    exact List.forall_mem_singleton.mpr fun _ h => accepts_suited rfl rfl h (suits_quoted rfl)
  | expression =>
    refine List.forall_mem_cons.mpr ⟨fun _ h => ?_, List.forall_mem_singleton.mpr fun _ h => ?_⟩
    · refine accepts_suited rfl rfl h ?_
      obtain _ | ⟨_, _ | ⟨_, _ | _⟩⟩ := h
      exact suits_expression rfl rfl fun _ => ⟨_, rfl⟩
    · refine accepts_suited rfl rfl h ?_
      obtain _ | ⟨_, _ | _⟩ := h
      exact suits_expression rfl rfl fun halternative => absurd rfl halternative
  | assignmentBody =>
    refine List.forall_mem_singleton.mpr fun _ h => accepts_suited rfl rfl h ?_
    obtain _ | ⟨htarget, _ | ⟨_, _ | ⟨_, _ | _⟩⟩⟩ := h
    exact suits_assign rfl rfl rfl htarget.fits.ref_isSome
  | assignmentHead => exact fun n h => ⟨h.symbol_eq, h.complete⟩
  | printHead =>
    refine List.forall_mem_cons.mpr ⟨fun _ h => ?_, List.forall_mem_singleton.mpr fun _ h => ?_⟩
    · refine accepts_suited rfl rfl h ?_
      obtain _ | ⟨_, _ | ⟨_, _ | _⟩⟩ := h
      exact suits_print fx rfl rfl
    · refine accepts_suited rfl rfl h ?_
      obtain _ | ⟨_, _ | ⟨_, _ | _⟩⟩ := h
      exact suits_print fx rfl rfl
  | assignment | print =>
    exact List.forall_mem_singleton.mpr fun _ h => accepts_without_action rfl rfl h rfl rfl
  | program =>
    refine List.forall_mem_cons.mpr ⟨fun _ h => accepts_without_action rfl rfl h rfl rfl, ?_⟩
    refine List.forall_mem_cons.mpr ⟨fun _ h => accepts_without_action rfl rfl h rfl rfl, ?_⟩
    exact List.forall_mem_singleton.mpr fun _ h => accepts_empty rfl rfl h rfl rfl

end Rules

end Formula
end Spreadsheet
