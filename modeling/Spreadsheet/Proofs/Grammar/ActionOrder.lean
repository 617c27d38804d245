import Spreadsheet.Proofs.Grammar.Triple

/-! # The order of actions

Actions run when the last symbol of an alternative has matched, so those of a tree run from the
leaves to the root. What an abandoned alternative did is not undone: its actions stay in a log
between those of the tree, but they never reorder them. Nothing that is found depends on the log.
-/
namespace Spreadsheet

variable {ι C A α : Type}

/-- The actions that have run: the name of the production and the alternative that matched. -/
abbrev ActionLog := List (Text × Option Nat)

/-- Writes itself into a log, and judges the node without looking at it. -/
def Action.logging (name : Text) (verdict : Node ι A → Option A) : Action ι (ActionLog × C) A :=
  fun n s => some (verdict n, (s.1 ++ [(name, n.alternative)], s.2))

/-- A rule whose action, if it has one, writes itself into the log and does nothing else. -/
inductive Rule.IsLogging : Rule ι (ActionLog × C) A → Prop
  | epsilon : IsLogging .epsilon
  | token (t : Token A) : IsLogging (.token t)
  | production (p : Production ι (ActionLog × C) A)
      (h : ∀ act ∈ p.action, ∃ verdict, act = .logging p.name verdict) : IsLogging (.production p)

namespace Node

mutual

def postorder : Node ι A → List (Node ι A)
  | ⟨symbol, alternative, text, children, attr, isEpsilon⟩ =>
    postorderOf children ++ [⟨symbol, alternative, text, children, attr, isEpsilon⟩]

def postorderOf : List (Node ι A) → List (Node ι A)
  | [] => []
  | n :: ns => n.postorder ++ postorderOf ns

end

theorem postorderOf_eq (ns : List (Node ι A)) : postorderOf ns = ns.flatMap postorder := by
  induction ns with
  | nil => rfl
  | cons n ns ih => rw [postorderOf, ih, List.flatMap_cons]

theorem postorder_eq (n : Node ι A) : n.postorder = n.children.flatMap postorder ++ [n] := by
  cases n
  rw [postorder, postorderOf_eq]

end Node

namespace Grammar

section Definitions

variable (g : Grammar ι (ActionLog × C) A)

/-- What the action of a node writes: nothing if its production has no action or the node matched
the empty rule. -/
def ownEntry (n : Node ι A) : Option (Text × Option Nat) :=
  match g.rule n.symbol with
  | .production p => if p.action.isSome && !n.isEpsilon then some (p.name, n.alternative) else none
  | _ => none

def treeLog (n : Node ι A) : ActionLog := n.postorder.filterMap g.ownEntry

variable [Inhabited A]

/-- Whether no alternative that ran an action is abandoned while symbols are read one after the
other. -/
def straightSequence (parse : ι → Text → Computation (ActionLog × C) (Option (Match ι A)))
    (straight : ι → Text → ActionLog × C → Bool) : List ι → Text → ActionLog × C → Bool
  | [], _, _ => true
  | r :: rs, input, s => straight r input s &&
    match parse r input s with
    | some (some (_, rest), t) => straightSequence parse straight rs rest t
    | _ => true

def straightChoose (parse : ι → Text → Computation (ActionLog × C) (Option (Match ι A)))
    (straight : ι → Text → ActionLog × C → Bool) (p : Production ι (ActionLog × C) A) (symbol : ι)
    (input : Text) : (index : Nat) → List (List ι) → ActionLog × C → Bool
  | _, [], _ => true
  | index, symbols :: alternatives, s => straightSequence parse straight symbols input s &&
    match g.attempt parse p symbol index symbols input s with
    | some (none, t) =>
      t.1 == s.1 && straightChoose parse straight p symbol input (index + 1) alternatives t
    | _ => true

/-- Whether a parse abandons no alternative that ran an action. -/
def straight : (fuel : Nat) → ι → Text → ActionLog × C → Bool
  | 0, _, _, _ => true
  | fuel + 1, symbol, input, s =>
    match g.rule symbol with
    | .production p =>
      g.straightChoose (g.run fuel) (straight fuel) p symbol input 0 p.alternatives s
    | _ => true

end Definitions

end Grammar

/-- From every log the computation gives the same value, and adds the same to the log. -/
def Adds (m : Computation (ActionLog × C) α) (a : α) (suffix : ActionLog) : Prop :=
  ∀ s, Gives (· = s) m a (· = (s.1 ++ suffix, s.2))

namespace Adds

variable {m : Computation (ActionLog × C) α} {a b : α} {l : ActionLog}

theorem pure (a : α) : Adds (pure a : Computation (ActionLog × C) α) a [] := fun s => by
  rw [List.append_nil]
  exact Gives.pure a

theorem apply (h : Adds m a l) (s : ActionLog × C) : m s = some (a, (s.1 ++ l, s.2)) := by
  obtain ⟨_, hm, rfl⟩ := h s s rfl
  exact hm

end Adds

def accounted (entries : α → ActionLog) : Option α → ActionLog
  | none => []
  | some a => entries a

/-- Wherever the computation ends, it adds the same to every log. What it adds contains the entries
that its match accounts for; a match accounts for all of it exactly if nothing that had run an
action was abandoned. -/
def Records (m : Computation (ActionLog × C) (Option α)) (entries : α → ActionLog)
    (straight : ActionLog × C → Bool) : Prop :=
  ∀ s result t, m s = some (result, t) → ∃ suffix, Adds m result suffix ∧
    (accounted entries result).Sublist suffix ∧
    (suffix = accounted entries result → straight s = true) ∧
    (result.isSome → straight s = true → suffix = accounted entries result)

theorem Records.pure {entries : α → ActionLog} {straight : ActionLog × C → Bool} {result : Option α}
    (hresult : accounted entries result = []) (hstraight : ∀ s, straight s = true) :
    Records (pure result) entries straight := by
  intro s _ t h
  cases h
  exact ⟨[], .pure _, hresult ▸ .refl _, fun _ => hstraight s, fun _ _ => hresult.symm⟩

/-- Two lists that contain two others are equal to them if that holds of them together. -/
theorem eq_and_eq_of_append {l l' e e' : ActionLog} (h : e.Sublist l) (h' : e'.Sublist l')
    (heq : l ++ l' = e ++ e') : l = e ∧ l' = e' := by
  have hlength := congrArg List.length heq
  rw [List.length_append, List.length_append] at hlength
  have hle := h.length_le
  have hle' := h'.length_le
  exact ⟨(h.eq_of_length (by omega)).symm, (h'.eq_of_length (by omega)).symm⟩

namespace Grammar

variable {g : Grammar ι (ActionLog × C) A}
  {parse : ι → Text → Computation (ActionLog × C) (Option (Match ι A))}
  {straight : ι → Text → ActionLog × C → Bool}

/-- A branch has the actions of its children and then its own. -/
theorem treeLog_eq (n : Node ι A) :
    g.treeLog n = n.children.flatMap g.treeLog ++ (g.ownEntry n).toList := by
  have hown : [n].filterMap g.ownEntry = (g.ownEntry n).toList := by
    cases h : g.ownEntry n <;> simp [h]
  rw [treeLog, Node.postorder_eq, List.filterMap_append, List.filterMap_flatMap, hown]
  rfl

theorem records_sequence
    (hparse : ∀ r input, Records (parse r input) (fun m => g.treeLog m.1) (straight r input))
    (symbols : List ι) (input : Text) :
    Records (sequence parse symbols input) (fun m => m.1.flatMap g.treeLog)
      (straightSequence parse straight symbols input) := by
  induction symbols generalizing input with
  | nil => exact .pure rfl fun _ => rfl
  | cons r rs ih =>
    intro s result u h
    obtain ⟨⟨first, t⟩, hfirst, hrest⟩ := Option.bind_eq_some_iff.mp h
    obtain ⟨l, hl, hsub, hback, hstraight⟩ := hparse r input s first t hfirst
    cases first with
    | none =>
      cases hrest
      refine ⟨l, fun s => gives_sequence_head_none (hl s), List.nil_sublist _, fun hnil => ?_,
        fun hsome => by cases hsome⟩
      simp [straightSequence, hfirst, hback hnil]
    | some m =>
      obtain ⟨⟨others, u'⟩, hothers, hend⟩ := Option.bind_eq_some_iff.mp hrest
      obtain ⟨l', hl', hsub', hback', hstraight'⟩ := ih m.2 t others u' hothers
      have hsame : straightSequence parse straight (r :: rs) input s = true ↔
          straight r input s = true ∧ straightSequence parse straight rs m.2 t = true := by
        rw [straightSequence, hfirst, Bool.and_eq_true]
      cases others with
      | none =>
        cases hend
        refine ⟨l ++ l', fun s => ?_, List.nil_sublist _, fun hnil => ?_, fun hsome => by cases hsome⟩
        · rw [← List.append_assoc]
          exact gives_sequence_tail_none (hl s) (hl' (s.1 ++ l, s.2))
        · obtain ⟨rfl, rfl⟩ := List.append_eq_nil_iff.mp hnil
          exact hsame.mpr ⟨hback (List.sublist_nil.mp hsub).symm, hback' rfl⟩
      | some ms =>
        cases hend
        refine ⟨l ++ l', fun s => ?_, hsub.append hsub', fun hall => ?_, fun _ hall => ?_⟩
        · rw [← List.append_assoc]
          exact gives_sequence_cons (hl s) (hl' (s.1 ++ l, s.2))
        · obtain ⟨hhead, htail⟩ := eq_and_eq_of_append hsub hsub' hall
          exact hsame.mpr ⟨hback hhead, hback' htail⟩
        · obtain ⟨hhead, htail⟩ := hsame.mp hall
          rw [hstraight rfl hhead, hstraight' rfl htail]
          rfl

variable [Inhabited A] {p : Production ι (ActionLog × C) A} {symbol : ι}

/-- A node that is accepted has written its own entry, if it has one. -/
theorem exists_accept (hrule : g.rule symbol = .production p)
    (hlogging : ∀ act ∈ p.action, ∃ verdict, act = .logging p.name verdict) (index : Nat)
    (vacuous : Bool) (children : List (Node ι A)) :
    ∃ result l, Adds (p.accept symbol index vacuous children) result l ∧
      ∀ n, result = some n → n.children = children ∧ l = (g.ownEntry n).toList := by
  unfold Production.accept
  cases vacuous with
  | true =>
    refine ⟨_, [], .pure _, fun n hn => ?_⟩
    cases hn
    simp [ownEntry, hrule]
  | false =>
    cases haction : p.action with
    | none =>
      refine ⟨_, [], .pure _, fun n hn => ?_⟩
      cases hn
      simp [ownEntry, hrule, haction]
    | some act =>
      obtain ⟨verdict, rfl⟩ := hlogging act haction
      generalize hn : (⟨symbol, some index, Node.joinedText children, children, default, false⟩ :
        Node ι A) = n
      have hact : Adds (Action.logging p.name verdict n : Computation (ActionLog × C) (Option A))
          (verdict n) [(p.name, n.alternative)] := by
        rintro s _ rfl
        exact ⟨_, rfl, rfl⟩
      cases hverdict : verdict n with
      | none =>
        refine ⟨none, [(p.name, n.alternative)], fun s => ?_, fun n hn => by cases hn⟩
        exact (hverdict ▸ hact s).bind (Gives.pure _)
      | some a =>
        refine ⟨some { n with attr := a }, [(p.name, n.alternative)], fun s => ?_, fun m hm => ?_⟩
        · exact (hverdict ▸ hact s).bind (Gives.pure _)
        · cases hm
          subst hn
          simp [ownEntry, hrule, haction]

variable (hparse : ∀ r input, Records (parse r input) (fun m => g.treeLog m.1) (straight r input))
  (hrule : g.rule symbol = .production p)
  (hlogging : ∀ act ∈ p.action, ∃ verdict, act = .logging p.name verdict)

include hparse hrule hlogging

theorem records_attempt (index : Nat) (symbols : List ι) (input : Text) :
    Records (g.attempt parse p symbol index symbols input) (fun m => g.treeLog m.1)
      (straightSequence parse straight symbols input) := by
  intro s result u h
  obtain ⟨⟨matched, t⟩, hmatched, hrest⟩ := Option.bind_eq_some_iff.mp h
  obtain ⟨l, hl, hsub, hback, hstraight⟩ :=
    records_sequence hparse symbols input s matched t hmatched
  cases matched with
  | none =>
    cases hrest
    exact ⟨l, fun s => gives_attempt_none (hl s), List.nil_sublist _, hback,
      fun hsome => by cases hsome⟩
  | some m =>
    obtain ⟨verdict, l', hl', hown⟩ :=
      exists_accept hrule hlogging index (g.isVacuous symbols) m.1
    obtain ⟨⟨accepted, u'⟩, haccepted, hend⟩ := Option.bind_eq_some_iff.mp hrest
    obtain ⟨rfl, -⟩ := Prod.mk.inj (Option.some.inj (haccepted.symm.trans (hl'.apply t)))
    cases accepted with
    | none =>
      cases hend
      refine ⟨l ++ l', fun s => ?_, List.nil_sublist _, fun hnil => ?_, fun hsome => by cases hsome⟩
      · rw [← List.append_assoc]
        exact (hl s).bind ((hl' (s.1 ++ l, s.2)).bind (Gives.pure _))
      · obtain ⟨rfl, rfl⟩ := List.append_eq_nil_iff.mp hnil
        exact hback (List.sublist_nil.mp hsub).symm
    | some n =>
      cases hend
      obtain ⟨hchildren, rfl⟩ := hown n rfl
      have htree : g.treeLog n = m.1.flatMap g.treeLog ++ (g.ownEntry n).toList := by
        rw [treeLog_eq, hchildren]
      refine ⟨l ++ (g.ownEntry n).toList, fun s => ?_, ?_, fun hall => ?_, fun _ hall => ?_⟩
      · rw [← List.append_assoc]
        exact (hl s).bind ((hl' (s.1 ++ l, s.2)).bind (Gives.pure _))
      · rw [accounted, htree]
        exact hsub.append (.refl _)
      · rw [accounted, htree] at hall
        exact hback (List.append_cancel_right hall)
      · rw [accounted, htree, hstraight rfl hall]
        rfl

theorem records_choose (index : Nat) (alternatives : List (List ι)) (input : Text) :
    Records (g.choose parse p symbol input index alternatives) (fun m => g.treeLog m.1)
      (g.straightChoose parse straight p symbol input index alternatives) := by
  induction alternatives generalizing index with
  | nil => exact .pure rfl fun _ => rfl
  | cons symbols alternatives ih =>
    intro s result u h
    obtain ⟨⟨first, t⟩, hfirst, hrest⟩ := Option.bind_eq_some_iff.mp h
    obtain ⟨l, hl, hsub, hback, hstraight⟩ :=
      records_attempt hparse hrule hlogging index symbols input s first t hfirst
    cases first with
    | some m =>
      cases hrest
      have hsame : g.straightChoose parse straight p symbol input index (symbols :: alternatives) s =
          straightSequence parse straight symbols input s := by
        rw [straightChoose, hfirst, Bool.and_true]
      exact ⟨l, fun s => gives_choose_first (hl s), hsub, fun hall => hsame.trans (hback hall),
        fun hsome hall => hstraight hsome (hsame.symm.trans hall)⟩
    | none =>
      obtain ⟨l', hl', hsub', hback', hstraight'⟩ := ih (index + 1) t result u hrest
      have ht : t.1 = s.1 ↔ l = [] := by
        obtain ⟨-, rfl⟩ := Prod.mk.inj (Option.some.inj (hfirst.symm.trans (hl.apply s)))
        exact List.append_right_eq_self
      have hsame : g.straightChoose parse straight p symbol input index (symbols :: alternatives) s =
          true ↔ straightSequence parse straight symbols input s = true ∧ t.1 = s.1 ∧
            g.straightChoose parse straight p symbol input (index + 1) alternatives t = true := by
        rw [straightChoose, hfirst, Bool.and_eq_true, Bool.and_eq_true, beq_iff_eq]
      refine ⟨l ++ l', fun s => ?_, hsub'.trans (List.sublist_append_right l l'), fun hall => ?_,
        fun hsome hall => ?_⟩
      · rw [← List.append_assoc]
        exact gives_choose_next (hl s) (hl' (s.1 ++ l, s.2))
      · obtain ⟨hnil, hrest⟩ := eq_and_eq_of_append (List.nil_sublist l) hsub' hall
        exact hsame.mpr ⟨hback hnil, ht.mpr hnil, hback' hrest⟩
      · obtain ⟨-, hnil, hrest⟩ := hsame.mp hall
        rw [ht.mp hnil, List.nil_append, hstraight' hsome hrest]

omit hparse hrule hlogging

theorem records_run (hg : ∀ symbol, (g.rule symbol).IsLogging) (fuel : Nat) (symbol : ι)
    (input : Text) :
    Records (g.run fuel symbol input) (fun m => g.treeLog m.1) (g.straight fuel symbol input) := by
  induction fuel generalizing symbol input with
  | zero =>
    intro s result t h
    cases h
  | succ fuel ih =>
    cases hrule : g.rule symbol with
    | epsilon =>
      simp only [run, hrule]
      refine .pure ?_ fun s => by rw [Grammar.straight, hrule]
      simp [accounted, treeLog_eq, ownEntry, Node.epsilon, hrule]
    | token tk =>
      simp only [run, hrule]
      refine .pure ?_ fun s => by rw [Grammar.straight, hrule]
      cases tk.read input with
      | none => rfl
      | some m => simp [accounted, treeLog_eq, ownEntry, Node.token, hrule]
    | production p =>
      have hlogging := hg symbol
      rw [hrule] at hlogging
      cases hlogging with
      | production _ hlogging =>
        have hchoose := records_choose ih hrule hlogging 0 p.alternatives input
        intro s result t h
        rw [run, hrule] at h
        obtain ⟨l, hl, hsub, hback, hstraight⟩ := hchoose s result t h
        rw [Grammar.straight, hrule]
        exact ⟨l, fun s => gives_run_production hrule (hl s), hsub, hback, hstraight⟩
    | scope sc =>
      have hlogging := hg symbol
      rw [hrule] at hlogging
      cases hlogging

/-- A parse that ends from some log ends from every other one with the same result, and adds the
same actions to the log. If it matches, the actions of the tree are among them, each after those
below it; and they are all of them exactly if no alternative that ran an action was abandoned. -/
theorem run_logs_postorder (hg : ∀ symbol, (g.rule symbol).IsLogging) {fuel : Nat} {symbol : ι}
    {input : Text} (hends : ∃ s, (g.run fuel symbol input s).isSome = true) :
    ∃ result suffix,
      (∀ log c, g.run fuel symbol input (log, c) = some (result, (log ++ suffix, c))) ∧
      ∀ n rest, result = some (n, rest) → (g.treeLog n).Sublist suffix ∧
        ∀ s, g.straight fuel symbol input s = true ↔ suffix = g.treeLog n := by
  have hrecords := records_run hg fuel symbol input
  obtain ⟨s, hs⟩ := hends
  obtain ⟨⟨result, t⟩, hrun⟩ := Option.isSome_iff_exists.mp hs
  obtain ⟨suffix, hadds, hsub, -⟩ := hrecords s result t hrun
  refine ⟨result, suffix, fun log c => hadds.apply (log, c), ?_⟩
  rintro n rest rfl
  refine ⟨hsub, fun s => ?_⟩
  obtain ⟨l, hl, -, hback, hstraight⟩ := hrecords s _ _ (hadds.apply s)
  obtain rfl : l = suffix := by
    have hboth := (hl.apply s).symm.trans (hadds.apply s)
    simp only [Option.some.injEq, Prod.mk.injEq, true_and, and_true] at hboth
    exact List.append_cancel_left hboth
  exact ⟨hstraight rfl, hback⟩

section Sample

def letters : Grammar (Fin 4) (ActionLog × Unit) Unit where
  size := 4
  rule
    | 0 => .production ⟨Text.ofString "sum", [[1, 2, 1], [1]],
        some (.logging (Text.ofString "sum") fun _ => some ())⟩
    | 1 => .production ⟨Text.ofString "letter", [[3]],
        some (.logging (Text.ofString "letter") fun _ => some ())⟩
    | 2 => .token
        ⟨Text.ofString "+", true, fun t => if t.head? = some 43 then 1 else 0, fun _ => some ()⟩
    | 3 => .token
        ⟨Text.ofString "a", true, fun t => if t.head? = some 97 then 1 else 0, fun _ => some ()⟩

theorem letters_isLogging : ∀ symbol, (letters.rule symbol).IsLogging
  | 0 => .production _ fun _ h => ⟨_, (Option.mem_some.mp h).symm⟩
  | 1 => .production _ fun _ h => ⟨_, (Option.mem_some.mp h).symm⟩
  | 2 => .token _
  | 3 => .token _

/-- The first letter is read twice, since no sum follows it; the tree has it once. -/
theorem run_logs_postorder_abandoned :
    ∃ n rest, (∀ log c, letters.run 3 0 (Text.ofString "a-a") (log, c) =
        some (some (n, rest), (log ++ [(Text.ofString "letter", some 0),
          (Text.ofString "letter", some 0), (Text.ofString "sum", some 1)], c))) ∧
      letters.treeLog n = [(Text.ofString "letter", some 0), (Text.ofString "sum", some 1)] ∧
      ∀ s, letters.straight 3 0 (Text.ofString "a-a") s = false := by
  have hlog : (letters.run 3 0 (Text.ofString "a-a") ([], ())).map (·.2.1) =
      some [(Text.ofString "letter", some 0), (Text.ofString "letter", some 0),
        (Text.ofString "sum", some 1)] := by decide +kernel
  have hmatch : ((letters.run 3 0 (Text.ofString "a-a") ([], ())).bind (·.1)).map
      (fun m => letters.treeLog m.1) =
      some [(Text.ofString "letter", some 0), (Text.ofString "sum", some 1)] := by decide +kernel
  obtain ⟨result, suffix, hrun, hpost⟩ := run_logs_postorder letters_isLogging
    (⟨([], ()), by decide +kernel⟩ : ∃ s, (letters.run 3 0 (Text.ofString "a-a") s).isSome = true)
  rw [hrun [] ()] at hlog hmatch
  obtain rfl := Option.some.inj hlog
  obtain ⟨⟨n, rest⟩, rfl, htree⟩ := Option.map_eq_some_iff.mp hmatch
  refine ⟨n, rest, hrun, htree, fun s => Bool.eq_false_iff.mpr fun hs => ?_⟩
  have hall := ((hpost n rest rfl).2 s).mp hs
  rw [show letters.treeLog n = _ from htree] at hall
  exact absurd (congrArg List.length hall) (by decide)

end Sample

end Grammar

end Spreadsheet
