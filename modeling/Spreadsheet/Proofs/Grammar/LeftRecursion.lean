import Spreadsheet.Formula.Grammar
import Spreadsheet.Proofs.Grammar.Refinement
import Spreadsheet.Proofs.Grammar.Triple
import Spreadsheet.Proofs.Text.Trim
import Mathlib.Data.Finset.Card
import Mathlib.Logic.Relation

/-! # Grammars without left recursion

A symbol is nullable if it can match and take nothing. A symbol leads to another one on the left if
parsing it may come to parse the other one before anything was taken. In a finite grammar where no
symbol leads back to itself, every parse ends with a result. Only tokens take something, and a token
takes one byte at least. So the measure of a parse is the length of what is left to parse and then,
at one place of the input, the number of symbols that a symbol still leads to.
-/
namespace Spreadsheet

variable {ι E A : Type}

/-- A computation that ends from every environment, with a result that has the property. -/
def Returns {α : Type} (m : Computation E α) (Q : α → Prop) : Prop :=
  ∀ s, ∃ a t, m s = some (a, t) ∧ Q a

namespace Returns

variable {α β : Type} {Q : α → Prop} {R : β → Prop}

theorem pure {a : α} (h : Q a) : Returns (pure a : Computation E α) Q := fun s => ⟨a, s, rfl, h⟩

theorem bind {m : Computation E α} {k : α → Computation E β} (hm : Returns m Q)
    (hk : ∀ a, Q a → Returns (k a) R) : Returns (m >>= k) R := by
  intro s
  obtain ⟨a, t, ha, hQ⟩ := hm s
  obtain ⟨b, u, hb, hR⟩ := hk a hQ t
  exact ⟨b, u, (bind_apply_of_some ha).trans hb, hR⟩

theorem modify (f : E → E) : Returns (modify f : Computation E Unit) fun _ => True :=
  fun s => ⟨(), f s, rfl, trivial⟩

theorem get : Returns (get : Computation E E) fun _ => True := fun s => ⟨s, s, rfl, trivial⟩

theorem weaken {R : α → Prop} {m : Computation E α} (hm : Returns m Q) (h : ∀ a, Q a → R a) :
    Returns m R := by
  intro s
  obtain ⟨a, t, ha, hQ⟩ := hm s
  exact ⟨a, t, ha, h a hQ⟩

end Returns

def Rule.symbols : Rule ι E A → List ι
  | .epsilon => []
  | .token _ => []
  | .production p => p.alternatives.flatten
  | .scope sc => [sc.target, sc.body]

def Rule.ActionEnds : Rule ι E A → Prop
  | .production p => ∀ act ∈ p.action, ∀ n, Returns (act n) fun _ => True
  | _ => True

namespace Grammar

/-- All that can be reached from the listed symbols is listed, and there are no more of them than
the grammar says. -/
structure Lists (g : Grammar ι E A) (xs : List ι) : Prop where
  length_le : xs.length ≤ g.size
  closed : ∀ a ∈ xs, ∀ b ∈ (g.rule a).symbols, b ∈ xs

inductive Nullable (g : Grammar ι E A) : ι → Prop
  | epsilon {a : ι} (h : g.rule a = .epsilon) : Nullable g a
  | production {a : ι} {p : Production ι E A} {symbols : List ι} (h : g.rule a = .production p)
      (hsymbols : symbols ∈ p.alternatives) (hall : ∀ b ∈ symbols, Nullable g b) : Nullable g a
  | scope {a : ι} {sc : Scope ι E A} (h : g.rule a = .scope sc) (hbody : Nullable g sc.body) :
      Nullable g a

/-- The second symbol may be parsed at the place where the first one is. -/
inductive LeftStep (g : Grammar ι E A) : ι → ι → Prop
  | production {a b : ι} {p : Production ι E A} {before after : List ι}
      (h : g.rule a = .production p) (hsymbols : before ++ b :: after ∈ p.alternatives)
      (hbefore : ∀ x ∈ before, g.Nullable x) : LeftStep g a b
  | target {a : ι} {sc : Scope ι E A} (h : g.rule a = .scope sc) : LeftStep g a sc.target
  | body {a : ι} {sc : Scope ι E A} (h : g.rule a = .scope sc) : LeftStep g a sc.body

end Grammar

/-- A text that is left of an input, and if nothing was taken then `empty` holds. -/
def Advances (empty : Prop) (input rest : Text) : Prop :=
  rest.length < input.length ∨ rest.length = input.length ∧ empty

theorem Advances.trans {empty empty' : Prop} {input middle rest : Text}
    (h : Advances empty input middle) (h' : Advances empty' middle rest) :
    Advances (empty ∧ empty') input rest := by
  unfold Advances at h h' ⊢
  rcases h with h | ⟨h, he⟩
  · exact .inl (by omega)
  · rcases h' with h' | ⟨h', he'⟩
    · exact .inl (by omega)
    · exact .inr ⟨by omega, he, he'⟩

theorem Advances.mono {empty empty' : Prop} {input rest : Text} (h : Advances empty input rest)
    (he : empty → empty') : Advances empty' input rest :=
  h.imp_right fun hsame => ⟨hsame.1, he hsame.2⟩

/-- A token refuses the empty word. -/
theorem Token.length_lt_of_read {t : Token A} {input word rest : Text} {a : A}
    (h : t.read input = some (word, a, rest)) : rest.length < input.length := by
  have htrim : (if t.skipsBlanks then input.trim else input).length ≤ input.length := by
    split
    · exact Text.length_trim_le input
    · exact le_rfl
  unfold Token.read at h
  generalize (if t.skipsBlanks then input.trim else input) = u at h htrim
  by_cases hempty : (u.take (t.scan u)).isEmpty
  · rw [if_pos hempty] at h
    cases h
  · rw [if_neg hempty] at h
    obtain ⟨b, -, heq⟩ := Option.map_eq_some_iff.mp h
    cases heq
    have hword : 0 < (u.take (t.scan u)).length := by
      rw [List.length_pos_iff]
      simpa using hempty
    have hle := List.length_take_le' (t.scan u) u
    rw [List.length_drop]
    omega

namespace Grammar

variable {g : Grammar ι E A}

section Rank

variable {xs : List ι} {a b : ι}

open Classical in
/-- The number of listed symbols that a symbol leads to, itself among them. -/
noncomputable def rank (g : Grammar ι E A) (xs : List ι) (a : ι) : Nat :=
  (xs.toFinset.filter (Relation.ReflTransGen g.LeftStep a)).card

theorem rank_le (h : g.Lists xs) (a : ι) : g.rank xs a ≤ g.size := by
  classical
  calc g.rank xs a ≤ xs.toFinset.card := Finset.card_filter_le _ _
    _ ≤ xs.length := List.toFinset_card_le xs
    _ ≤ g.size := h.length_le

theorem rank_pos (ha : a ∈ xs) : 0 < g.rank xs a := by
  classical
  refine Finset.card_pos.mpr ⟨a, Finset.mem_filter.mpr ⟨List.mem_toFinset.mpr ha, .refl⟩⟩

/-- A symbol leads to itself and to all that a symbol to which it leads does, which is less. -/
theorem rank_lt (hleft : ¬ Relation.TransGen g.LeftStep a a) (ha : a ∈ xs) (h : g.LeftStep a b) :
    g.rank xs b < g.rank xs a := by
  classical
  refine Finset.card_lt_card (Finset.ssubset_iff_of_subset ?_ |>.mpr ⟨a, ?_, ?_⟩)
  · intro x hx
    rw [Finset.mem_filter] at hx ⊢
    exact ⟨hx.1, .head h hx.2⟩
  · exact Finset.mem_filter.mpr ⟨List.mem_toFinset.mpr ha, .refl⟩
  · intro hmem
    exact hleft (.head' h (Finset.mem_filter.mp hmem).2)

end Rank

section Ending

variable {α : Type} {xs symbols : List ι} {input : Text} {fuel : Nat}
  {parse : ι → Text → Computation E (Option (Match ι A))}

/-- If there is a match, then what is left of the input is what a match of such a kind may leave. -/
def Leaves (empty : Prop) (input : Text) (result : Option (α × Text)) : Prop :=
  ∀ m ∈ result, Advances empty input m.2

/-- A sequence ends if each of its symbols does at the places where it can come to be parsed: where
something was taken before it, or else all symbols before it are nullable. -/
theorem returns_sequence
    (hparse : ∀ before b after, symbols = before ++ b :: after → ∀ middle,
      Advances (∀ x ∈ before, g.Nullable x) input middle →
      Returns (parse b middle) (Leaves (g.Nullable b) middle)) :
    Returns (sequence parse symbols input) (Leaves (∀ x ∈ symbols, g.Nullable x) input) := by
  induction symbols generalizing input with
  | nil =>
    refine Returns.pure fun m hm => ?_
    cases hm
    exact .inr ⟨rfl, by simp⟩
  | cons b bs ih =>
    refine (hparse [] b bs rfl input (.inr ⟨rfl, by simp⟩)).bind fun result hresult => ?_
    cases result with
    | none => exact Returns.pure fun m hm => by cases hm
    | some p =>
      have hfirst := hresult p rfl
      refine Returns.bind (ih fun before c after hsplit middle hmiddle => ?_) fun result hrest => ?_
      · refine hparse (b :: before) c after (by rw [hsplit]; rfl) middle ?_
        refine (hfirst.trans hmiddle).mono fun h x hx => ?_
        rcases List.mem_cons.mp hx with rfl | hx
        · exact h.1
        · exact h.2 x hx
      · cases result with
        | none => exact Returns.pure fun m hm => by cases hm
        | some q =>
          refine Returns.pure fun m hm => ?_
          cases hm
          refine (hfirst.trans (hrest q rfl)).mono fun h x hx => ?_
          rcases List.mem_cons.mp hx with rfl | hx
          · exact h.1
          · exact h.2 x hx

variable [Inhabited A]

theorem returns_accept {p : Production ι E A} (hact : (Rule.production p).ActionEnds) (symbol : ι)
    (index : Nat) (vacuous : Bool) (children : List (Node ι A)) :
    Returns (p.accept symbol index vacuous children) fun _ => True := by
  unfold Production.accept
  cases vacuous with
  | true => exact Returns.pure trivial
  | false =>
    cases hp : p.action with
    | none => exact Returns.pure trivial
    | some act =>
      refine (hact act hp _).bind fun result _ => ?_
      cases result <;> exact Returns.pure trivial

/-- Alternatives that end do so one after the other, each on the whole input. -/
theorem returns_choose {p : Production ι E A} (hact : (Rule.production p).ActionEnds) (symbol : ι)
    (index : Nat) {alternatives : List (List ι)} {empty : Prop}
    (hsequence : ∀ symbols ∈ alternatives,
      Returns (sequence parse symbols input) (Leaves empty input)) :
    Returns (g.choose parse p symbol input index alternatives) (Leaves empty input) := by
  induction alternatives generalizing index with
  | nil => exact Returns.pure fun m hm => by cases hm
  | cons symbols alternatives ih =>
    have hattempt : Returns (g.attempt parse p symbol index symbols input) (Leaves empty input) := by
      refine (hsequence symbols List.mem_cons_self).bind fun result hresult => ?_
      cases result with
      | none => exact Returns.pure fun m hm => by cases hm
      | some q =>
        refine (returns_accept hact symbol index _ _).bind fun node _ => ?_
        cases node with
        | none => exact Returns.pure fun m hm => by cases hm
        | some n =>
          refine Returns.pure fun m hm => ?_
          cases hm
          exact hresult q rfl
    refine hattempt.bind fun result hresult => ?_
    cases result with
    | none => exact ih (index + 1) fun s hs => hsequence s (List.mem_cons_of_mem symbols hs)
    | some m => exact Returns.pure hresult

/-- Both parts of a scope are parsed on the whole input, and the match is that of the body. -/
theorem returns_scope {sc : Scope ι E A} {symbol : ι} {empty : Prop} {Q : Option (Match ι A) → Prop}
    (hrule : g.rule symbol = .scope sc) (htarget : Returns (g.run fuel sc.target input) Q)
    (hbody : Returns (g.run fuel sc.body input) (Leaves empty input)) :
    Returns (g.run (fuel + 1) symbol input) (Leaves empty input) := by
  rw [run, hrule]
  refine htarget.bind fun result _ => ?_
  cases result with
  | none => exact Returns.pure fun m hm => by cases hm
  | some p =>
    intro s
    cases hinner : sc.enter p.1 s with
    | none =>
      refine ⟨none, s, ?_, fun m hm => by cases hm⟩
      simp only [Bind.bind, StateT.bind, get, getThe, MonadStateOf.get, StateT.get, Option.pure_def,
        Option.bind_some, hinner]
      rfl
    | some inner =>
      obtain ⟨result, t, hrun, hleaves⟩ := hbody inner
      refine ⟨result, sc.leave s t, ?_, hleaves⟩
      simp only [Bind.bind, StateT.bind, get, getThe, MonadStateOf.get, StateT.get, Option.pure_def,
        Option.bind_some, hinner]
      change (g.run fuel sc.body input inner).bind (fun p => some (p.1, sc.leave s p.2)) = _
      rw [hrun]
      rfl

/-- A parse needs no more depth than the bytes of its input and the symbols that it leads to say. -/
theorem returns_run (hxs : g.Lists xs) (hleft : ∀ a ∈ xs, ¬ Relation.TransGen g.LeftStep a a)
    (hact : ∀ a ∈ xs, (g.rule a).ActionEnds) {a : ι} (ha : a ∈ xs)
    (hfuel : input.length * g.size + g.rank xs a ≤ fuel) :
    Returns (g.run fuel a input) (Leaves (g.Nullable a) input) := by
  induction fuel generalizing a input with
  | zero =>
    have := rank_pos (g := g) ha
    omega
  | succ fuel ih =>
    -- a symbol that is parsed at the same place has a smaller rank, one further on a shorter input
    have hnext {b : ι} {middle : Text} (hb : b ∈ (g.rule a).symbols)
        (hmiddle : Advances (g.LeftStep a b) input middle) :
        Returns (g.run fuel b middle) (Leaves (g.Nullable b) middle) := by
      refine ih (hxs.closed a ha b hb) ?_
      rcases hmiddle with hshort | ⟨hlength, hstep⟩
      · have hrank := rank_le hxs b
        have hpos := rank_pos (g := g) ha
        have hmul : (middle.length + 1) * g.size ≤ input.length * g.size :=
          Nat.mul_le_mul_right _ hshort
        rw [Nat.add_mul, Nat.one_mul] at hmul
        omega
      · have hrank := rank_lt (hleft a ha) ha hstep
        rw [hlength]
        omega
    cases hrule : g.rule a with
    | epsilon =>
      rw [run, hrule]
      refine Returns.pure fun m hm => ?_
      cases hm
      exact .inr ⟨rfl, .epsilon hrule⟩
    | token t =>
      rw [run, hrule]
      refine Returns.pure fun m hm => ?_
      obtain ⟨⟨word, x, rest⟩, hread, rfl⟩ := Option.map_eq_some_iff.mp hm
      exact .inl (Token.length_lt_of_read hread)
    | production p =>
      have hend := hact a ha
      rw [hrule] at hend hnext
      rw [run, hrule]
      refine returns_choose hend a 0 fun symbols hsymbols => ?_
      refine (returns_sequence (g := g) ?_).weaken fun result hresult m hm => ?_
      · rintro before b after rfl middle hmiddle
        exact hnext (List.mem_flatten.mpr ⟨_, hsymbols, by simp⟩)
          (hmiddle.mono fun hbefore => .production hrule hsymbols hbefore)
      · exact (hresult m hm).mono fun hall => .production hrule hsymbols hall
    | scope sc =>
      rw [hrule] at hnext
      have htarget := hnext (by simp [Rule.symbols]) (.inr ⟨rfl, .target hrule⟩)
      have hbody := hnext (by simp [Rule.symbols]) (.inr ⟨rfl, .body hrule⟩)
      refine (returns_scope hrule htarget hbody).weaken fun result hresult m hm => ?_
      exact (hresult m hm).mono fun hnullable => .scope hrule hnullable

end Ending

end Grammar

namespace Rule

/-- The symbols of an alternative up to the first one that is not in `nullable`, this one
included. -/
def corners (nullable : ι → Bool) : List ι → List ι
  | [] => []
  | b :: bs => b :: if nullable b then corners nullable bs else []

/-- A rule that agrees with `nullable`, and whose symbol has a higher level than what it leads
to. -/
def Descends (nullable : ι → Bool) (level : ι → Nat) (a : ι) : Rule ι E A → Prop
  | .epsilon => nullable a
  | .token _ => True
  | .production p => ∀ symbols ∈ p.alternatives, ((∀ b ∈ symbols, nullable b) → nullable a) ∧
      ∀ b ∈ corners nullable symbols, level b < level a
  | .scope sc => (nullable sc.body → nullable a) ∧ level sc.target < level a ∧ level sc.body < level a

instance (nullable : ι → Bool) (level : ι → Nat) (a : ι) (r : Rule ι E A) :
    Decidable (r.Descends nullable level a) :=
  match r with
  | .epsilon => inferInstanceAs (Decidable (_ = true))
  | .token _ => inferInstanceAs (Decidable True)
  | .production p => inferInstanceAs (Decidable (∀ symbols ∈ p.alternatives, _ ∧ _))
  | .scope _ => inferInstanceAs (Decidable (_ ∧ _))

theorem mem_corners {nullable : ι → Bool} {before after : List ι} {b : ι}
    (h : ∀ x ∈ before, nullable x) : b ∈ corners nullable (before ++ b :: after) := by
  induction before with
  | nil => exact List.mem_cons_self
  | cons x before ih =>
    have hx := h x List.mem_cons_self
    rw [List.cons_append, corners, if_pos hx]
    exact List.mem_cons_of_mem x (ih fun y hy => h y (List.mem_cons_of_mem x hy))

end Rule

namespace Grammar

section Descent

variable {g : Grammar ι E A} {xs : List ι} {nullable : ι → Bool} {level : ι → Nat} {a b : ι}

theorem Nullable.of_descends (hxs : g.Lists xs) (h : ∀ a ∈ xs, (g.rule a).Descends nullable level a)
    (ha : a ∈ xs) (hnull : g.Nullable a) : nullable a := by
  induction hnull with
  | @epsilon a hrule =>
    have hdown := h a ha
    rw [hrule] at hdown
    exact hdown
  | @production a p symbols hrule hsymbols _ ih =>
    have hdown := h a ha
    have hclosed := hxs.closed a ha
    rw [hrule] at hdown hclosed
    refine (hdown symbols hsymbols).1 fun b hb => ih b hb (hclosed b ?_)
    exact List.mem_flatten.mpr ⟨symbols, hsymbols, hb⟩
  | @scope a sc hrule _ ih =>
    have hdown := h a ha
    have hclosed := hxs.closed a ha
    rw [hrule] at hdown hclosed
    exact hdown.1 (ih (hclosed sc.body (by simp [Rule.symbols])))

theorem LeftStep.level_lt (hxs : g.Lists xs) (h : ∀ a ∈ xs, (g.rule a).Descends nullable level a)
    (ha : a ∈ xs) (hstep : g.LeftStep a b) : b ∈ xs ∧ level b < level a := by
  have hdown := h a ha
  have hclosed := hxs.closed a ha
  cases hstep with
  | @production _ p before after hrule hsymbols hbefore =>
    rw [hrule] at hdown hclosed
    have hmem (x : ι) (hx : x ∈ before ++ b :: after) : x ∈ xs :=
      hclosed x (List.mem_flatten.mpr ⟨_, hsymbols, hx⟩)
    refine ⟨hmem b (by simp), (hdown _ hsymbols).2 b (Rule.mem_corners fun x hx => ?_)⟩
    exact (hbefore x hx).of_descends hxs h (hmem x (by simp [hx]))
  | @target sc hrule =>
    rw [hrule] at hdown hclosed
    exact ⟨hclosed sc.target (by simp [Rule.symbols]), hdown.2.1⟩
  | @body sc hrule =>
    rw [hrule] at hdown hclosed
    exact ⟨hclosed sc.body (by simp [Rule.symbols]), hdown.2.2⟩

/-- Levels that go down along all steps on the left leave no way back. -/
theorem not_left_recursive_of_descends (hxs : g.Lists xs)
    (h : ∀ a ∈ xs, (g.rule a).Descends nullable level a) (ha : a ∈ xs) :
    ¬ Relation.TransGen g.LeftStep a a := by
  have hdown {b : ι} (hreach : Relation.TransGen g.LeftStep a b) : b ∈ xs ∧ level b < level a := by
    induction hreach with
    | single hstep => exact hstep.level_lt hxs h ha
    | tail _ hstep ih =>
      obtain ⟨hmem, hlt⟩ := hstep.level_lt hxs h ih.1
      exact ⟨hmem, hlt.trans ih.2⟩
  intro hloop
  exact lt_irrefl _ (hdown hloop).2

end Descent

end Grammar

namespace Formula

def Symbol.isNullable : Symbol → Bool
  | .epsilon | .termTail | .expressionTail | .program => true
  | _ => false

/-- How far each symbol of formulas is from a token, going down on the left. -/
def Symbol.level : Symbol → Nat
  | .columnLabel | .rowNumber | .relativeCell | .termTail | .expressionTail | .quotedString
    | .printHead => 1
  | .absoluteCell | .print => 2
  | .cellReference | .assignmentBody => 3
  | .value | .assignmentHead => 4
  | .term | .assignment => 5
  | .expression | .program => 6
  | _ => 0

theorem lists_all (fx : Effects) : (grammar fx).Lists Symbol.all :=
  ⟨le_rfl, fun _ _ b _ => b.mem_all⟩

theorem descends_inert : ∀ a ∈ Symbol.all,
    ((grammar .inert).rule a).Descends Symbol.isNullable Symbol.level a := by
  decide

theorem returns_resolveAbsolute (n : Tree) : Returns (resolveAbsolute n) fun _ => True := by
  simp only [resolveAbsolute]
  split
  · exact Returns.pure trivial
  · exact (Returns.modify _).bind fun _ _ => Returns.pure trivial

theorem returns_resolveRelative (n : Tree) : Returns (resolveRelative n) fun _ => True := by
  refine Returns.get.bind fun s _ => ?_
  cases s.context with
  | none => exact Returns.pure trivial
  | some origin =>
    dsimp only
    cases origin.shift? ((n.childAttr 1).value.int?.getD 0) ((n.childAttr 3).value.int?.getD 0) with
    | none => exact Returns.pure trivial
    | some r => exact Returns.pure trivial

theorem returns_assignTarget (n : Tree) : Returns (assignTarget n) fun _ => True := by
  unfold assignTarget
  cases (n.childAttr 0).ref with
  | none => exact Returns.pure trivial
  | some r => exact (Returns.modify _).bind fun _ _ => Returns.pure trivial

theorem returns_expressionValue (n : Tree) : Returns (expressionValue n) fun _ => True := by
  unfold expressionValue
  split
  · exact Returns.pure trivial
  · exact Returns.pure trivial

section Effects

variable {fx : Effects} (hcompute : ∀ r, Returns (fx.compute r) fun _ => True)
  (hannounce : ∀ kind n, Returns (fx.announce kind n) fun _ => True)

include hcompute in
theorem returns_readValue (n : Tree) : Returns (readValue fx n) fun _ => True := by
  unfold readValue
  split
  · cases (n.childAttr 0).ref with
    | none => exact Returns.pure trivial
    | some r => exact (hcompute r).bind fun _ _ => Returns.pure trivial
  · exact Returns.pure trivial

include hannounce in
theorem returns_announceExpression (n : Tree) :
    Returns (announceExpression fx n) fun _ => True := by
  unfold announceExpression
  cases n.children[1]? with
  | none => exact Returns.pure trivial
  | some expr => exact (hannounce _ expr).bind fun _ _ => Returns.pure trivial

include hcompute hannounce in
/-- The actions of the language end if reading a cell and reporting do. -/
theorem actionEnds_rule (a : Symbol) : (rule fx a).ActionEnds := by
  cases a
  case value => exact fun _ h => Option.some.inj h ▸ returns_readValue hcompute
  case printHead => exact fun _ h => Option.some.inj h ▸ returns_announceExpression hannounce
  case absoluteCell => exact fun _ h => Option.some.inj h ▸ returns_resolveAbsolute
  case relativeCell => exact fun _ h => Option.some.inj h ▸ returns_resolveRelative
  case assignmentBody => exact fun _ h => Option.some.inj h ▸ returns_assignTarget
  case expression => exact fun _ h => Option.some.inj h ▸ returns_expressionValue
  case rowNumber | cellReference | termTail | term | expressionTail | quotedString =>
    exact fun _ h n => Option.some.inj h ▸ Returns.pure trivial
  case columnLabel | assignment | print | program => exact fun _ h => by cases h
  all_goals trivial

end Effects

end Formula

namespace Grammar

variable {g : Grammar ι E A} [Inhabited A] {xs : List ι}

/-- In a grammar of finitely many symbols, none of which leads back to itself on the left, every
symbol parses every input to a result, whatever the tokens scan and refuse and whatever the actions
do, as long as each of them ends. The depth that is given to a parse cuts none off: a greater one
gives the same. -/
theorem parse_ends_of_not_left_recursive (hxs : g.Lists xs)
    (hleft : ∀ a ∈ xs, ¬ Relation.TransGen g.LeftStep a a)
    (hact : ∀ a ∈ xs, (g.rule a).ActionEnds) {symbol : ι} (hsymbol : symbol ∈ xs) (input : Text)
    (s : E) : ∃ result t, g.parse symbol input s = some (result, t) ∧
      ∀ fuel, g.depth input ≤ fuel → g.run fuel symbol input s = some (result, t) := by
  have hfuel : input.length * g.size + g.rank xs symbol ≤ g.depth input := by
    have hrank := rank_le hxs symbol
    rw [depth, Nat.add_mul, Nat.mul_add]
    omega
  obtain ⟨result, t, hrun, -⟩ := returns_run hxs hleft hact hsymbol hfuel s
  exact ⟨result, t, hrun, fun fuel hle => run_mono hle hrun⟩

open Formula

/-- The language of formulas, where cells read as empty and nothing is reported, and a program that
breaks off inside a product. -/
theorem parse_ends_of_not_left_recursive_formula :
    (grammar .inert).Lists Symbol.all ∧
    (∀ a ∈ Symbol.all, ¬ Relation.TransGen (grammar .inert).LeftStep a a) ∧
    (∀ a ∈ Symbol.all, ((grammar .inert).rule a).ActionEnds) ∧ Symbol.program ∈ Symbol.all ∧
    ∃ result t, (grammar .inert).parse .program
        (Text.ofString "A1 := r0c1 + 2 print_value \"x\" B7 := A1 * ") {} = some (result, t) ∧
      ∀ fuel, (grammar .inert).depth
          (Text.ofString "A1 := r0c1 + 2 print_value \"x\" B7 := A1 * ") ≤ fuel →
        (grammar .inert).run fuel .program
          (Text.ofString "A1 := r0c1 + 2 print_value \"x\" B7 := A1 * ") {} = some (result, t) := by
  have hlists := lists_all .inert
  have hleft (a : Symbol) (ha : a ∈ Symbol.all) :
      ¬ Relation.TransGen (grammar .inert).LeftStep a a :=
    not_left_recursive_of_descends hlists descends_inert ha
  have hact (a : Symbol) (_ : a ∈ Symbol.all) : ((grammar .inert).rule a).ActionEnds :=
    actionEnds_rule (fun _ => Returns.pure trivial) (fun _ _ => Returns.pure trivial) a
  have hprogram : Symbol.program ∈ Symbol.all := Symbol.mem_all _
  exact ⟨hlists, hleft, hact, hprogram,
    parse_ends_of_not_left_recursive hlists hleft hact hprogram _ {}⟩

end Grammar
end Spreadsheet
