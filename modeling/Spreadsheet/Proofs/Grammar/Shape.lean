import Spreadsheet.Proofs.Grammar.Layout
import Spreadsheet.Proofs.Grammar.Triple
import Mathlib.Data.List.Forall2

/-! # Shapes of nodes

A shape says what is known of the nodes that a symbol matches. If every rule makes a node of the
shape of its symbol from children of the shapes of theirs, then every match has the shape of its
symbol. An action thus sees no other nodes, whether its alternative is kept or abandoned later; put
in its place, an action that does the same on such nodes makes no difference to any parse.
-/
namespace Spreadsheet

variable {ι E A α β : Type}

/-- What follows a computation matters only on what the computation can give. -/
theorem Ensures.bind_congr {Q : α → Prop} {m : Computation E α} {k k' : α → Computation E β}
    (hm : Ensures m Q) (hk : ∀ a, Q a → k a = k' a) : m >>= k = m >>= k' := by
  funext s
  change (m s).bind (fun p => k p.1 p.2) = (m s).bind fun p => k' p.1 p.2
  refine Option.bind_congr fun p hp => ?_
  rw [hk p.1 (hm s p.1 p.2 hp)]

namespace Production

variable [Inhabited A]

/-- What is accepted of an alternative has the shape, and it is the same with another action. -/
structure Accepts (p : Production ι E A) (other : Option (Action ι E A)) (Shape : Node ι A → Prop)
    (symbol : ι) (index : Nat) (vacuous : Bool) (children : List (Node ι A)) : Prop where
  accept_eq : accept { p with action := other } symbol index vacuous children =
    p.accept symbol index vacuous children
  ensures : Ensures (p.accept symbol index vacuous children) fun result => ∀ n ∈ result, Shape n

variable {name : Text} {alternatives : List (List ι)} {act other : Option (Action ι E A)}
  {Shape : Node ι A → Prop} {symbol : ι} {index : Nat} {children : List (Node ι A)}

theorem accepts_vacuous (h : Shape (.vacuous symbol index children)) :
    Accepts ⟨name, alternatives, act⟩ other Shape symbol index true children where
  accept_eq := rfl
  ensures := .pure fun n hn => by cases hn; exact h

theorem accepts_plain (h : Shape (.branch symbol index children default)) :
    Accepts ⟨name, alternatives, none⟩ (none : Option (Action ι E A)) Shape symbol index false
      children where
  accept_eq := rfl
  ensures := .pure fun n hn => by cases hn; exact h

theorem accepts_action {act other : Action ι E A}
    (heq : other (.branch symbol index children default) = act (.branch symbol index children default))
    (h : Ensures (act (.branch symbol index children default)) fun result =>
      ∀ a ∈ result, Shape (.branch symbol index children a)) :
    Accepts ⟨name, alternatives, some act⟩ (some other) Shape symbol index false children where
  accept_eq := by
    change other (.branch symbol index children default) >>= _ =
      act (.branch symbol index children default) >>= _
    rw [heq]
  ensures := by
    refine h.bind fun result hresult => ?_
    cases result with
    | none => exact .pure (by simp)
    | some a => exact .pure fun n hn => by cases hn; exact hresult a rfl

end Production

namespace Rule

def withAction (other : Option (Action ι E A)) : Rule ι E A → Rule ι E A
  | .production p => .production { p with action := other }
  | r => r

/-- A rule that gives nodes of the shape of its symbol if the symbols in it do so, and no less with
another action. -/
def Shapes [Inhabited A] (isVacuous : List ι → Bool) (Shape : ι → Node ι A → Prop) (symbol : ι)
    (other : Option (Action ι E A)) : Rule ι E A → Prop
  | .epsilon => Shape symbol (.epsilon symbol)
  | .token t => ∀ input word a rest, t.read input = some (word, a, rest) →
      Shape symbol (.token symbol word a)
  | .production p => ∀ x ∈ p.alternatives.zipIdx, ∀ children, List.Forall₂ Shape x.1 children →
      p.Accepts other (Shape symbol) symbol x.2 (isVacuous x.1) children
  | .scope sc => ∀ n, Shape sc.body n → Shape symbol n

end Rule

namespace Grammar

def withActions (g : Grammar ι E A) (other : ι → Option (Action ι E A)) : Grammar ι E A where
  size := g.size
  rule symbol := (g.rule symbol).withAction (other symbol)

variable {g : Grammar ι E A} {other : ι → Option (Action ι E A)} {Shape : ι → Node ι A → Prop}
  {parse : ι → Text → Computation E (Option (Match ι A))} {symbol : ι} {p : Production ι E A}

theorem isVacuous_withActions (symbols : List ι) :
    (g.withActions other).isVacuous symbols = g.isVacuous symbols := by
  match symbols with
  | [] => rfl
  | [r] =>
    simp only [isVacuous, withActions]
    cases g.rule r <;> rfl
  | _ :: _ :: _ => rfl

theorem sequence_shapes
    (hparse : ∀ r input, Ensures (parse r input) fun result => ∀ m ∈ result, Shape r m.1)
    (symbols : List ι) (input : Text) :
    Ensures (sequence parse symbols input) fun result =>
      ∀ m ∈ result, List.Forall₂ Shape symbols m.1 := by
  induction symbols generalizing input with
  | nil => exact .pure fun m hm => by cases hm; exact .nil
  | cons r rs ih =>
    refine (hparse r input).bind fun result hfirst => ?_
    cases result with
    | none => exact .pure (by simp)
    | some m =>
      refine (ih m.2).bind fun result hothers => ?_
      cases result with
      | none => exact .pure (by simp)
      | some ms => exact .pure fun x hx => by cases hx; exact .cons (hfirst m rfl) (hothers ms rfl)

variable [Inhabited A]

section Alternatives

variable (hparse : ∀ r input, Ensures (parse r input) fun result => ∀ m ∈ result, Shape r m.1)

include hparse

theorem attempt_shapes (index : Nat) (symbols : List ι) (input : Text)
    (haccepts : ∀ children, List.Forall₂ Shape symbols children →
      p.Accepts (other symbol) (Shape symbol) symbol index (g.isVacuous symbols) children) :
    (g.withActions other).attempt parse { p with action := other symbol } symbol index symbols input =
        g.attempt parse p symbol index symbols input ∧
      Ensures (g.attempt parse p symbol index symbols input) fun result =>
        ∀ m ∈ result, Shape symbol m.1 := by
  have hsequence := sequence_shapes hparse symbols input
  constructor
  · refine hsequence.bind_congr fun result hresult => ?_
    cases result with
    | none => rfl
    | some m =>
      dsimp only
      rw [isVacuous_withActions, (haccepts m.1 (hresult m rfl)).accept_eq]
  · refine hsequence.bind fun result hresult => ?_
    cases result with
    | none => exact .pure (by simp)
    | some m =>
      refine (haccepts m.1 (hresult m rfl)).ensures.bind fun result haccept => ?_
      cases result with
      | none => exact .pure (by simp)
      | some n => exact .pure fun x hx => by cases hx; exact haccept n rfl

theorem choose_shapes (index : Nat) (alternatives : List (List ι)) (input : Text)
    (haccepts : ∀ x ∈ alternatives.zipIdx index, ∀ children, List.Forall₂ Shape x.1 children →
      p.Accepts (other symbol) (Shape symbol) symbol x.2 (g.isVacuous x.1) children) :
    (g.withActions other).choose parse { p with action := other symbol } symbol input index
        alternatives = g.choose parse p symbol input index alternatives ∧
      Ensures (g.choose parse p symbol input index alternatives) fun result =>
        ∀ m ∈ result, Shape symbol m.1 := by
  induction alternatives generalizing index with
  | nil => exact ⟨rfl, .pure (by simp)⟩
  | cons symbols alternatives ih =>
    rw [List.zipIdx_cons, List.forall_mem_cons] at haccepts
    have hattempt := attempt_shapes hparse index symbols input haccepts.1
    have hnext := ih (index + 1) haccepts.2
    constructor
    · simp only [choose]
      rw [hattempt.1, hnext.1]
    · refine hattempt.2.bind fun result hresult => ?_
      cases result with
      | none => exact hnext.2
      | some m => exact .pure hresult

end Alternatives

variable (hrules : ∀ symbol, (g.rule symbol).Shapes g.isVacuous Shape symbol (other symbol))

include hrules

/-- By induction on how deep the parse may go: every match has the shape of its symbol, so every
node that an action sees has children of the shapes of theirs. -/
theorem run_shapes (fuel : Nat) (symbol : ι) (input : Text) :
    (g.withActions other).run fuel symbol input = g.run fuel symbol input ∧
      Ensures (g.run fuel symbol input) fun result => ∀ m ∈ result, Shape symbol m.1 := by
  induction fuel generalizing symbol input with
  | zero => exact ⟨rfl, fun _ _ _ h => by cases h⟩
  | succ fuel ih =>
    have hsame : (g.withActions other).run fuel = g.run fuel :=
      funext fun r => funext fun input => (ih r input).1
    have hrule := hrules symbol
    simp only [run, hsame]
    simp only [withActions]
    cases hr : g.rule symbol with
    | epsilon =>
      rw [hr] at hrule
      exact ⟨rfl, .pure fun m hm => by cases hm; exact hrule⟩
    | token t =>
      rw [hr] at hrule
      refine ⟨rfl, .pure fun m hm => ?_⟩
      obtain ⟨⟨word, a, rest⟩, hread, heq⟩ := Option.map_eq_some_iff.mp hm
      cases heq
      exact hrule input word a rest hread
    | production p =>
      rw [hr] at hrule
      exact choose_shapes (fun r input => (ih r input).2) 0 p.alternatives input hrule
    | scope sc =>
      rw [hr] at hrule
      refine ⟨rfl, (Ensures.true (g.run fuel sc.target input)).bind fun result _ => ?_⟩
      cases result with
      | none => exact .pure (by simp)
      | some target =>
        refine (Ensures.true get).bind fun outer _ => ?_
        split
        · exact .pure (by simp)
        · refine (Ensures.true (set _)).bind fun _ _ => ?_
          refine ((ih sc.body input).2).bind fun result hresult => ?_
          exact (Ensures.true (modify _)).bind fun _ _ => .pure fun m hm => hrule m.1 (hresult m hm)

theorem parse_withActions (symbol : ι) (input : Text) :
    (g.withActions other).parse symbol input = g.parse symbol input :=
  (run_shapes hrules _ symbol input).1

end Grammar
end Spreadsheet
