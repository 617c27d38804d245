import Spreadsheet.Formula.Grammar
import Spreadsheet.Proofs.Text.Gap

/-! # What a match takes from its input

The words of a parse tree are the texts of its terminals, from left to right. Every other node has
the words below it as its text. A match takes its words from the front of the input, each with
blanks before it or none, and leaves the rest; blanks at the end of the input may be gone as well.
This holds of every grammar: it is shown for tokens and kept by sequences, alternatives and scopes.
-/
namespace Spreadsheet

variable {ι E A : Type}

namespace Node

mutual

def nodes : Node ι A → List (Node ι A)
  | ⟨symbol, alternative, text, children, attr, isEpsilon⟩ =>
    ⟨symbol, alternative, text, children, attr, isEpsilon⟩ :: nodesOf children

def nodesOf : List (Node ι A) → List (Node ι A)
  | [] => []
  | n :: ns => n.nodes ++ nodesOf ns

end

/-- A terminal chooses no alternative, and it is not the empty rule. -/
def isTerminal (n : Node ι A) : Bool := n.alternative.isNone && !n.isEpsilon

def terminals (n : Node ι A) : List (Node ι A) := n.nodes.filter isTerminal

def wordText (n : Node ι A) : Text := n.terminals.flatMap (·.text)

theorem nodesOf_eq (ns : List (Node ι A)) : nodesOf ns = ns.flatMap nodes := by
  induction ns with
  | nil => rfl
  | cons n ns ih => rw [nodesOf, ih, List.flatMap_cons]

theorem nodes_eq (n : Node ι A) : n.nodes = n :: n.children.flatMap nodes := by
  cases n
  rw [nodes, nodesOf_eq]

theorem mem_nodes (n : Node ι A) : n ∈ n.nodes := by
  rw [nodes_eq]
  exact List.mem_cons_self

theorem nodes_subset {n c : Node ι A} (h : c ∈ n.children) : c.nodes ⊆ n.nodes := by
  intro m hm
  rw [nodes_eq]
  exact List.mem_cons_of_mem n (List.mem_flatMap.mpr ⟨c, h, hm⟩)

theorem terminals_eq {n : Node ι A} (h : n.isTerminal = false) :
    n.terminals = n.children.flatMap terminals := by
  rw [terminals, nodes_eq, List.filter_cons_of_neg (by simp [h]), List.filter_flatMap]
  rfl

theorem wordText_eq {n : Node ι A} (h : n.isTerminal = false) :
    n.wordText = n.children.flatMap wordText := by
  rw [wordText, terminals_eq h, List.flatMap_assoc]
  rfl

/-- Leaving out what the empty rule matched changes nothing, since that has no text. -/
theorem joinedText_eq {ns : List (Node ι A)} (h : ∀ n ∈ ns, n.isEpsilon = true → n.text = []) :
    joinedText ns = ns.flatMap (·.text) := by
  induction ns with
  | nil => rfl
  | cons n ns ih =>
    have htail := ih fun m hm => h m (List.mem_cons_of_mem n hm)
    rw [joinedText, List.flatMap_cons, ← htail]
    split
    · next hn => rw [h n List.mem_cons_self hn, List.nil_append]
    · rfl

end Node

/-- What a computation gives, wherever it starts and if it ends. -/
def Ensures {α : Type} (m : Computation E α) (Q : α → Prop) : Prop :=
  ∀ s a t, m s = some (a, t) → Q a

namespace Ensures

variable {α β : Type} {Q : α → Prop} {R : β → Prop}

theorem pure {a : α} (h : Q a) : Ensures (pure a : Computation E α) Q := by
  intro s b t hb
  cases hb
  exact h

theorem bind {m : Computation E α} {k : α → Computation E β} (hm : Ensures m Q)
    (hk : ∀ a, Q a → Ensures (k a) R) : Ensures (m >>= k) R := by
  intro s b u h
  obtain ⟨⟨a, t⟩, ht, hb⟩ := Option.bind_eq_some_iff.mp h
  exact hk a (hm s a t ht) t b u hb

theorem true (m : Computation E α) : Ensures m fun _ => True := fun _ _ _ _ => trivial

end Ensures

namespace Grammar

open Text

variable {g : Grammar ι E A}

/-- A terminal with the gap before it. A token that does not skip blanks has none. -/
structure IsPiece (g : Grammar ι E A) (gap : Text) (n : Node ι A) : Prop where
  isGap : IsGap gap
  ne_nil : n.text ≠ []
  exists_token : ∃ t, g.rule n.symbol = .token t ∧ (t.skipsBlanks = false → gap = [])

/-- The input is the given terminals with gaps before them, the rest, and another gap. -/
def LaidOut (g : Grammar ι E A) (terminals : List (Node ι A)) (input rest : Text) : Prop :=
  ∃ pieces : List (Text × Node ι A), ∃ gap, pieces.map (·.2) = terminals ∧
    input = pieces.flatMap (fun p => p.1 ++ p.2.text) ++ (rest ++ gap) ∧ IsGap gap ∧
    ∀ p ∈ pieces, g.IsPiece p.1 p.2

theorem LaidOut.nil (g : Grammar ι E A) (input : Text) : g.LaidOut [] input input :=
  ⟨[], [], rfl, by simp, .nil, by simp⟩

theorem LaidOut.append {ms ns : List (Node ι A)} {input middle rest : Text}
    (h : g.LaidOut ms input middle) (h' : g.LaidOut ns middle rest) :
    g.LaidOut (ms ++ ns) input rest := by
  obtain ⟨ps, v, rfl, rfl, hv, hps⟩ := h
  obtain ⟨qs, w, rfl, rfl, hw, hqs⟩ := h'
  refine ⟨ps ++ qs, w ++ v, by simp, by simp, hw.append hv, fun p hp => ?_⟩
  rcases List.mem_append.mp hp with hp | hp
  · exact hps p hp
  · exact hqs p hp

/-- Trimming the input for a token takes a gap before the word and one from the end. -/
theorem laidOut_token {symbol : ι} {t : Token A} {input word rest : Text} {a : A}
    (hrule : g.rule symbol = .token t) (h : t.read input = some (word, a, rest)) :
    g.LaidOut [Node.token symbol word a] input rest := by
  obtain ⟨v, w, hv, hw, hinput, hverbatim⟩ : ∃ v w, IsGap v ∧ IsGap w ∧
      input = v ++ ((if t.skipsBlanks then input.trim else input) ++ w) ∧
      (t.skipsBlanks = false → v = []) := by
    cases hskips : t.skipsBlanks with
    | false => exact ⟨[], [], .nil, .nil, by simp, fun _ => rfl⟩
    | true =>
      obtain ⟨v, w, hv, hw, hinput⟩ := exists_trim input
      exact ⟨v, w, hv, hw, hinput, by simp⟩
  simp only [Token.read] at h
  generalize (if t.skipsBlanks then input.trim else input) = trimmed at h hinput
  split at h
  · cases h
  · next hne =>
    obtain ⟨b, -, heq⟩ := Option.map_eq_some_iff.mp h
    cases heq
    have hne' : trimmed.take (t.scan trimmed) ≠ [] := by simpa using hne
    have hword := List.prefix_iff_eq_append.mp (List.take_prefix (t.scan trimmed) trimmed)
    refine ⟨[(v, _)], w, rfl, ?_, hw, ?_⟩
    · rw [hinput]
      nth_rewrite 1 [← hword]
      simp only [List.flatMap_singleton, List.append_assoc]
    · intro p hp
      rw [List.mem_singleton.mp hp]
      exact ⟨hv, hne', t, hrule, hverbatim⟩

/-- The text of every node of the tree is the words below it. What the empty rule matched, and an
alternative that consists of it, has no text. -/
structure Worded (g : Grammar ι E A) (symbol : ι) (n : Node ι A) : Prop where
  text_eq : ∀ m ∈ n.nodes, m.text = m.wordText
  text_eq_nil : n.isEpsilon = true ∨ (g.rule symbol).isEpsilon = true → n.text = []

/-- A match of a symbol accounts for the input. -/
structure Covers (g : Grammar ι E A) (symbol : ι) (input : Text) (m : Match ι A) : Prop where
  laidOut : g.LaidOut m.1.terminals input m.2
  worded : g.Worded symbol m.1

/-- Matches of the symbols of an alternative, one after the other, account for the input. -/
structure CoversAll (g : Grammar ι E A) (symbols : List ι) (input : Text)
    (m : List (Node ι A) × Text) : Prop where
  laidOut : g.LaidOut (m.1.flatMap Node.terminals) input m.2
  worded : ∀ c ∈ m.1, ∃ r ∈ symbols, g.Worded r c

theorem covers_token {symbol : ι} {t : Token A} {input word rest : Text} {a : A}
    (hrule : g.rule symbol = .token t) (h : t.read input = some (word, a, rest)) :
    g.Covers symbol input (Node.token symbol word a, rest) := by
  refine ⟨laidOut_token hrule h, fun n hn => ?_, ?_⟩
  · rw [List.mem_singleton.mp hn]
    exact (List.append_nil word).symm
  · simp [hrule, Node.token, Rule.isEpsilon]

/-- A node above matches that account for the input does so too. -/
theorem covers_branch {symbol : ι} {symbols : List ι} {input rest : Text} {n : Node ι A}
    (hn : n.isTerminal = false) (h : g.CoversAll symbols input (n.children, rest))
    (htext : n.text = n.children.flatMap (·.text))
    (hnil : n.isEpsilon = true ∨ (g.rule symbol).isEpsilon = true → n.text = []) :
    g.Covers symbol input (n, rest) := by
  refine ⟨?_, fun m hm => ?_, hnil⟩
  · rw [Node.terminals_eq hn]
    exact h.laidOut
  · rw [Node.nodes_eq, List.mem_cons, List.mem_flatMap] at hm
    rcases hm with rfl | ⟨c, hc, hm⟩
    · rw [htext, Node.wordText_eq hn]
      refine List.flatMap_congr fun c hc => ?_
      obtain ⟨r, -, hw⟩ := h.worded c hc
      exact hw.text_eq c c.mem_nodes
    · obtain ⟨r, -, hw⟩ := h.worded c hc
      exact hw.text_eq m hm

theorem sequence_covers {parse : ι → Text → Computation E (Option (Match ι A))}
    (hparse : ∀ r input, Ensures (parse r input) fun result => ∀ m ∈ result, g.Covers r input m)
    (symbols : List ι) (input : Text) :
    Ensures (sequence parse symbols input) fun result =>
      ∀ m ∈ result, g.CoversAll symbols input m := by
  induction symbols generalizing input with
  | nil =>
    refine .pure fun m hm => ?_
    cases hm
    exact ⟨.nil g input, by simp⟩
  | cons r rs ih =>
    refine (hparse r input).bind fun result hfirst => ?_
    cases result with
    | none => exact .pure (by simp)
    | some m =>
      refine (ih m.2).bind fun result hothers => ?_
      cases result with
      | none => exact .pure (by simp)
      | some ms =>
        have hm := hfirst m rfl
        have hms := hothers ms rfl
        refine .pure fun x hx => ?_
        cases hx
        refine ⟨?_, ?_⟩
        · rw [List.flatMap_cons]
          exact hm.laidOut.append hms.laidOut
        · rw [List.forall_mem_cons]
          refine ⟨⟨r, List.mem_cons_self, hm.worded⟩, fun c hc => ?_⟩
          obtain ⟨x, hx, hc⟩ := hms.worded c hc
          exact ⟨x, List.mem_cons_of_mem r hx, hc⟩

variable [Inhabited A]

theorem covers_epsilon (symbol : ι) (input : Text) :
    g.Covers symbol input (Node.epsilon symbol, input) := by
  refine ⟨.nil g input, fun n hn => ?_, fun _ => rfl⟩
  rw [List.mem_singleton.mp hn]
  rfl

/-- The node of an alternative accounts for what its symbols matched, whatever the action does. -/
theorem accept_covers {symbol : ι} {p : Production ι E A} (hrule : g.rule symbol = .production p)
    (index : Nat) {symbols : List ι} {children : List (Node ι A)} {input rest : Text}
    (h : g.CoversAll symbols input (children, rest)) :
    Ensures (p.accept symbol index (g.isVacuous symbols) children) fun result =>
      ∀ n ∈ result, g.Covers symbol input (n, rest) := by
  have hnil : ¬ (g.rule symbol).isEpsilon = true := by simp [hrule, Rule.isEpsilon]
  have hjoined : Node.joinedText children = children.flatMap (·.text) := by
    refine Node.joinedText_eq fun c hc hepsilon => ?_
    obtain ⟨r, -, hw⟩ := h.worded c hc
    exact hw.text_eq_nil (.inl hepsilon)
  have hbranch (a : A) : g.Covers symbol input
      (⟨symbol, some index, Node.joinedText children, children, a, false⟩, rest) :=
    covers_branch rfl h hjoined (by simp [hnil])
  unfold Production.accept
  split
  · next hvacuous =>
    -- the only child is what the empty rule matched, so the text left out is empty
    refine .pure fun n hn => ?_
    cases hn
    refine covers_branch rfl h ?_ fun _ => rfl
    refine (List.flatMap_eq_nil_iff.mpr fun c hc => ?_).symm
    obtain ⟨r, hr, hw⟩ := h.worded c hc
    match symbols, hvacuous, hr with
    | [_], hvacuous, hr =>
      cases List.mem_singleton.mp hr
      exact hw.text_eq_nil (.inr hvacuous)
  · cases p.action with
    | none => exact .pure fun n hn => by cases hn; exact hbranch default
    | some act =>
      refine (Ensures.true (act _)).bind fun result _ => ?_
      cases result with
      | none => exact .pure (by simp)
      | some a => exact .pure fun n hn => by cases hn; exact hbranch a

theorem choose_covers {parse : ι → Text → Computation E (Option (Match ι A))} {symbol : ι}
    {p : Production ι E A} (hrule : g.rule symbol = .production p)
    (hparse : ∀ r input, Ensures (parse r input) fun result => ∀ m ∈ result, g.Covers r input m)
    (input : Text) (index : Nat) (alternatives : List (List ι)) :
    Ensures (g.choose parse p symbol input index alternatives) fun result =>
      ∀ m ∈ result, g.Covers symbol input m := by
  induction alternatives generalizing index with
  | nil => exact .pure (by simp)
  | cons symbols alternatives ih =>
    have hattempt : Ensures (g.attempt parse p symbol index symbols input) fun result =>
        ∀ m ∈ result, g.Covers symbol input m := by
      refine (sequence_covers hparse symbols input).bind fun result hsequence => ?_
      cases result with
      | none => exact .pure (by simp)
      | some m =>
        refine (accept_covers hrule index (hsequence m rfl)).bind fun result haccept => ?_
        cases result with
        | none => exact .pure (by simp)
        | some n => exact .pure fun x hx => by cases hx; exact haccept n rfl
    refine hattempt.bind fun result hresult => ?_
    cases result with
    | none => exact ih (index + 1)
    | some m => exact .pure hresult

/-- Every match accounts for the input, by induction on how deep the parse may go. -/
theorem run_covers (g : Grammar ι E A) (fuel : Nat) (symbol : ι) (input : Text) :
    Ensures (g.run fuel symbol input) fun result => ∀ m ∈ result, g.Covers symbol input m := by
  induction fuel generalizing symbol input with
  | zero =>
    intro s a t h
    cases h
  | succ fuel ih =>
    simp only [run]
    split
    · exact .pure fun m hm => by cases hm; exact covers_epsilon symbol input
    · next t hrule =>
      refine .pure fun m hm => ?_
      obtain ⟨⟨word, a, rest⟩, hread, heq⟩ := Option.map_eq_some_iff.mp hm
      cases heq
      exact covers_token hrule hread
    · next p hrule => exact choose_covers hrule ih input 0 p.alternatives
    · next sc hrule =>
      -- the target is read first and then again as part of the body, whose node is the result
      refine (Ensures.true (g.run fuel sc.target input)).bind fun result _ => ?_
      cases result with
      | none => exact .pure (by simp)
      | some target =>
        refine (Ensures.true get).bind fun outer _ => ?_
        split
        · exact .pure (by simp)
        · refine (Ensures.true (set _)).bind fun _ _ => ?_
          refine (ih sc.body input).bind fun result hresult => ?_
          refine (Ensures.true (modify _)).bind fun _ _ => .pure fun m hm => ?_
          have hbody := hresult m hm
          refine ⟨hbody.laidOut, hbody.worded.text_eq, ?_⟩
          rintro (h | h)
          · exact hbody.worded.text_eq_nil (.inl h)
          · rw [hrule] at h
            cases h

/-- Nothing of the input is lost, and nothing is taken twice. The text of every node is the words
below it, and the input is the words of the tree in order, each after a gap, then the rest and a
last gap. No word is empty, and a word that is read verbatim stands after no gap. -/
theorem input_eq_of_run (g : Grammar ι E A) {fuel : Nat} {symbol : ι} {input rest : Text} {s t : E}
    {n : Node ι A} (h : g.run fuel symbol input s = some (some (n, rest), t)) :
    (∀ m ∈ n.nodes, m.text = m.terminals.flatMap (·.text)) ∧
      ∃ pieces : List (Text × Node ι A), ∃ gap, pieces.map (·.2) = n.terminals ∧
        input = pieces.flatMap (fun p => p.1 ++ p.2.text) ++ (rest ++ gap) ∧ IsGap gap ∧
        ∀ p ∈ pieces, IsGap p.1 ∧ p.2.text ≠ [] ∧
          ∃ token, g.rule p.2.symbol = .token token ∧ (token.skipsBlanks = false → p.1 = []) := by
  have hcovers := g.run_covers fuel symbol input s _ t h (n, rest) rfl
  refine ⟨hcovers.worded.text_eq, ?_⟩
  obtain ⟨pieces, gap, hterminals, hinput, hgap, hpieces⟩ := hcovers.laidOut
  refine ⟨pieces, gap, hterminals, hinput, hgap, fun p hp => ?_⟩
  exact ⟨(hpieces p hp).isGap, (hpieces p hp).ne_nil, (hpieces p hp).exists_token⟩

def untidy : Text := ofString "\n A1 := \" x  y \"print_value A1 * 2 A  "

/-- Blanks inside the quotes belong to the word there, and the blank at the end is gone from the
rest. -/
theorem input_eq_of_run_program : ∃ n t,
    (Formula.grammar .inert).run 20 .program untidy {} = some (some (n, ofString " A"), t) ∧
    n.terminals.map (·.text) = (["A", "1", ":=", "\"", " x  y ", "\"", "print_value", "A", "1", "*",
      "2"].map ofString) ∧
    (∀ m ∈ n.nodes, m.text = m.terminals.flatMap (·.text)) ∧
    ∃ pieces : List (Text × Formula.Tree), ∃ gap, pieces.map (·.2) = n.terminals ∧
      untidy = pieces.flatMap (fun p => p.1 ++ p.2.text) ++ (ofString " A" ++ gap) ∧ IsGap gap ∧
      ∀ p ∈ pieces, IsGap p.1 ∧ p.2.text ≠ [] ∧ ∃ token,
        (Formula.grammar .inert).rule p.2.symbol = .token token ∧
          (token.skipsBlanks = false → p.1 = []) := by
  have hrun : ((Formula.grammar .inert).run 20 .program untidy {}).map
        (·.1.map fun m => (m.1.terminals.map (·.text), m.2)) =
      some (some (["A", "1", ":=", "\"", " x  y ", "\"", "print_value", "A", "1", "*", "2"].map
        ofString, ofString " A")) := by
    decide +kernel
  obtain ⟨⟨result, t⟩, hresult, heq⟩ := Option.map_eq_some_iff.mp hrun
  obtain ⟨⟨n, rest⟩, rfl, hn⟩ := Option.map_eq_some_iff.mp heq
  obtain ⟨hwords, rfl⟩ := Prod.mk.inj hn
  exact ⟨n, t, hresult, hwords, input_eq_of_run _ hresult⟩

end Grammar
end Spreadsheet
