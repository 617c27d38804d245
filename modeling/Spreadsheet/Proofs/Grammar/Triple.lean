import Spreadsheet.Grammar.Parse

/-! # Triples for parsing

`Gives P m a Q` says that from every environment with `P` the computation `m` ends, gives `a`, and
leaves an environment with `Q`. The result is named, so the case distinctions of the parser on what
a step gave are settled when the rules for sequences, alternatives and productions are applied.
-/
namespace Spreadsheet

variable {ι E A α β : Type} {P Q R : E → Prop}

theorem bind_apply_of_some {m : Computation E α} {k : α → Computation E β} {s t : E} {a : α}
    (h : m s = some (a, t)) : (m >>= k) s = k a t := by
  change (m s).bind (fun p => k p.1 p.2) = _
  rw [h]
  rfl

theorem mapM_cons_of_some {f : α → Computation E β} {a : α} {as : List α} {b : β} {bs : List β}
    {s t u : E} (ha : f a s = some (b, t)) (has : as.mapM f t = some (bs, u)) :
    (a :: as).mapM f s = some (b :: bs, u) := by
  rw [List.mapM_cons, bind_apply_of_some ha, bind_apply_of_some has]
  rfl

def Gives (P : E → Prop) (m : Computation E α) (a : α) (Q : E → Prop) : Prop :=
  ∀ s, P s → ∃ t, m s = some (a, t) ∧ Q t

namespace Gives

theorem pure (a : α) : Gives P (pure a : Computation E α) a P :=
  fun s hs => ⟨s, rfl, hs⟩

theorem bind {m : Computation E α} {k : α → Computation E β} {a : α} {b : β}
    (hm : Gives P m a Q) (hk : Gives Q (k a) b R) : Gives P (m >>= k) b R := by
  intro s hs
  obtain ⟨t, hmt, ht⟩ := hm s hs
  obtain ⟨u, hku, hu⟩ := hk t ht
  exact ⟨u, (bind_apply_of_some hmt).trans hku, hu⟩

theorem modify {f : E → E} (h : ∀ s, P s → Q (f s)) :
    Gives P (modify f : Computation E Unit) () Q :=
  fun s hs => ⟨f s, rfl, h s hs⟩

theorem weaken {m : Computation E α} {a : α} {P' Q' : E → Prop} (h : Gives P m a Q)
    (hP : ∀ s, P' s → P s) (hQ : ∀ s, Q s → Q' s) : Gives P' m a Q' := by
  intro s hs
  obtain ⟨t, hm, ht⟩ := h s (hP s hs)
  exact ⟨t, hm, hQ t ht⟩

end Gives

def Node.branch (symbol : ι) (index : Nat) (children : List (Node ι A)) (attr : A) : Node ι A :=
  ⟨symbol, some index, joinedText children, children, attr, false⟩

def Node.vacuous [Inhabited A] (symbol : ι) (index : Nat) (children : List (Node ι A)) : Node ι A :=
  ⟨symbol, some index, [], children, default, true⟩

namespace Grammar

variable {g : Grammar ι E A} {parse : ι → Text → Computation E (Option (Match ι A))}

section Sequence

variable {r : ι} {rs : List ι} {input rest rest' : Text} {n : Node ι A} {ns : List (Node ι A)}

theorem gives_sequence_nil : Gives P (sequence parse [] input) (some ([], input)) P :=
  Gives.pure _

theorem gives_sequence_cons (hr : Gives P (parse r input) (some (n, rest)) Q)
    (hrs : Gives Q (sequence parse rs rest) (some (ns, rest')) R) :
    Gives P (sequence parse (r :: rs) input) (some (n :: ns, rest')) R :=
  hr.bind (hrs.bind (Gives.pure _))

theorem gives_sequence_head_none (hr : Gives P (parse r input) none Q) :
    Gives P (sequence parse (r :: rs) input) none Q :=
  hr.bind (Gives.pure _)

theorem gives_sequence_tail_none (hr : Gives P (parse r input) (some (n, rest)) Q)
    (hrs : Gives Q (sequence parse rs rest) none R) :
    Gives P (sequence parse (r :: rs) input) none R :=
  hr.bind (hrs.bind (Gives.pure _))

end Sequence

variable [Inhabited A]

section Attempt

variable {p : Production ι E A} {symbol : ι} {index : Nat} {symbols : List ι} {input rest : Text}
  {children : List (Node ι A)}

theorem gives_attempt_none (hseq : Gives P (sequence parse symbols input) none Q) :
    Gives P (g.attempt parse p symbol index symbols input) none Q :=
  hseq.bind (Gives.pure _)

theorem gives_attempt_vacuous (hvac : g.isVacuous symbols = true)
    (hseq : Gives P (sequence parse symbols input) (some (children, rest)) Q) :
    Gives P (g.attempt parse p symbol index symbols input)
      (some (Node.vacuous symbol index children, rest)) Q := by
  refine hseq.bind (Gives.bind (a := some (Node.vacuous symbol index children)) ?_ (Gives.pure _))
  simp only [Production.accept, hvac, if_true]
  exact Gives.pure _

theorem gives_attempt_plain (hvac : g.isVacuous symbols = false) (hact : p.action = none)
    (hseq : Gives P (sequence parse symbols input) (some (children, rest)) Q) :
    Gives P (g.attempt parse p symbol index symbols input)
      (some (Node.branch symbol index children default, rest)) Q := by
  refine hseq.bind
    (Gives.bind (a := some (Node.branch symbol index children default)) ?_ (Gives.pure _))
  simp only [Production.accept, hvac, hact]
  exact Gives.pure _

theorem gives_attempt_action {act : Action ι E A} {a : A} (hvac : g.isVacuous symbols = false)
    (hact : p.action = some act)
    (hseq : Gives P (sequence parse symbols input) (some (children, rest)) Q)
    (ha : Gives Q (act (Node.branch symbol index children default)) (some a) R) :
    Gives P (g.attempt parse p symbol index symbols input)
      (some (Node.branch symbol index children a, rest)) R := by
  refine hseq.bind (Gives.bind (a := some (Node.branch symbol index children a)) ?_ (Gives.pure _))
  simp only [Production.accept, hvac, hact]
  exact ha.bind (Gives.pure _)

theorem gives_attempt_refused {act : Action ι E A} (hvac : g.isVacuous symbols = false)
    (hact : p.action = some act)
    (hseq : Gives P (sequence parse symbols input) (some (children, rest)) Q)
    (ha : Gives Q (act (Node.branch symbol index children default)) none R) :
    Gives P (g.attempt parse p symbol index symbols input) none R := by
  refine hseq.bind (Gives.bind (a := none) ?_ (Gives.pure _))
  simp only [Production.accept, hvac, hact]
  exact ha.bind (Gives.pure _)

end Attempt

section Choose

variable {p : Production ι E A} {symbol : ι} {index : Nat} {symbols : List ι} {input : Text}
  {alternatives : List (List ι)} {m : Match ι A} {result : Option (Match ι A)}

theorem gives_choose_nil : Gives P (g.choose parse p symbol input index []) none P :=
  Gives.pure _

theorem gives_choose_first (h : Gives P (g.attempt parse p symbol index symbols input) (some m) Q) :
    Gives P (g.choose parse p symbol input index (symbols :: alternatives)) (some m) Q :=
  h.bind (Gives.pure _)

theorem gives_choose_next (h : Gives P (g.attempt parse p symbol index symbols input) none Q)
    (hnext : Gives Q (g.choose parse p symbol input (index + 1) alternatives) result R) :
    Gives P (g.choose parse p symbol input index (symbols :: alternatives)) result R :=
  h.bind hnext

end Choose

section Run

variable {symbol : ι} {input : Text} {fuel : Nat} {result : Option (Match ι A)}

theorem gives_run_epsilon (hrule : g.rule symbol = .epsilon) :
    Gives P (g.run (fuel + 1) symbol input) (some (Node.epsilon symbol, input)) P := by
  rw [run, hrule]
  exact Gives.pure _

theorem gives_run_token {t : Token A} (hrule : g.rule symbol = .token t) :
    Gives P (g.run (fuel + 1) symbol input)
      ((t.read input).map fun (word, a, rest) => (Node.token symbol word a, rest)) P := by
  rw [run, hrule]
  exact Gives.pure _

theorem gives_run_production {p : Production ι E A} (hrule : g.rule symbol = .production p)
    (h : Gives P (g.choose (g.run fuel) p symbol input 0 p.alternatives) result Q) :
    Gives P (g.run (fuel + 1) symbol input) result Q := by
  rw [run, hrule]
  exact h

theorem gives_run_scope {sc : Scope ι E A} {n : Node ι A} {rest : Text}
    (hrule : g.rule symbol = .scope sc)
    (htarget : Gives P (g.run fuel sc.target input) (some (n, rest)) Q)
    (hbody : ∀ outer, Q outer → ∃ inner, sc.enter n outer = some inner ∧
      Gives (· = inner) (g.run fuel sc.body input) result fun t => R (sc.leave outer t)) :
    Gives P (g.run (fuel + 1) symbol input) result R := by
  rw [run, hrule]
  refine htarget.bind fun outer houter => ?_
  obtain ⟨inner, henter, h⟩ := hbody outer houter
  obtain ⟨t, hrun, ht⟩ := h inner rfl
  refine ⟨sc.leave outer t, ?_, ht⟩
  simp only [Bind.bind, StateT.bind, get, getThe, MonadStateOf.get, StateT.get, Option.pure_def,
    Option.bind_some, henter]
  change (g.run fuel sc.body input inner).bind (fun p => some (p.1, sc.leave outer p.2)) = _
  rw [hrun]
  rfl

theorem gives_run_scope_none {sc : Scope ι E A} (hrule : g.rule symbol = .scope sc)
    (htarget : Gives P (g.run fuel sc.target input) none Q) :
    Gives P (g.run (fuel + 1) symbol input) none Q := by
  rw [run, hrule]
  exact htarget.bind (Gives.pure _)

end Run

end Grammar
end Spreadsheet
