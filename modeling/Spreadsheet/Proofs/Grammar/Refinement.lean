import Spreadsheet.Grammar.Parse

/-! # Refinement of parses

`Refines P m m'` says that whatever `m` gives from an environment with `P`, `m'` gives too, and that
`P` holds afterwards. Where `m` does not end, nothing is said. A parse is refined by one that may go
deeper and whose actions refine its own; so a parse that ends gives the same at every greater depth.
-/
namespace Spreadsheet

variable {ι E A α β : Type} {P : E → Prop}

def Refines (P : E → Prop) (m m' : Computation E α) : Prop :=
  ∀ s a t, P s → m s = some (a, t) → m' s = some (a, t) ∧ P t

namespace Refines

theorem pure (a : α) : Refines P (pure a : Computation E α) (pure a) := by
  intro s b t hs h
  cases h
  exact ⟨rfl, hs⟩

theorem bind {m m' : Computation E α} {k k' : α → Computation E β} (hm : Refines P m m')
    (hk : ∀ a, Refines P (k a) (k' a)) : Refines P (m >>= k) (m' >>= k') := by
  intro s b u hs h
  obtain ⟨⟨a, t⟩, hmt, hkt⟩ := Option.bind_eq_some_iff.mp h
  obtain ⟨hm', ht⟩ := hm s a t hs hmt
  change (m' s).bind (fun p => k' p.1 p.2) = _ ∧ _
  rw [hm']
  exact hk a t b u ht hkt

theorem modify {f : E → E} (h : ∀ s, P s → P (f s)) :
    Refines P (modify f : Computation E Unit) (modify f) := by
  intro s a t hs ht
  cases ht
  exact ⟨rfl, h s hs⟩

/-- A computation that does not end is refined by every other. -/
theorem none (m : Computation E α) : Refines P (fun _ => none) m := by
  intro s a t _ h
  cases h

theorem get : Refines P (get : Computation E E) get := by
  intro s a t hs ht
  cases ht
  exact ⟨rfl, hs⟩

theorem true (m : Computation E α) : Refines (fun _ => True) m m :=
  fun _ _ _ _ h => ⟨h, trivial⟩

end Refines

/-- Two rules of one shape, over symbols in `S`. The actions of the second refine those of the
first, and the environment keeps `P`. -/
inductive Rule.Refines (P : E → Prop) (S : ι → Prop) : Rule ι E A → Rule ι E A → Prop
  | epsilon : Refines P S .epsilon .epsilon
  | token (t : Token A) : Refines P S (.token t) (.token t)
  | production {name name' : Text} {alternatives : List (List ι)} {act act' : Option (Action ι E A)}
      (hsymbols : ∀ symbols ∈ alternatives, ∀ r ∈ symbols, S r)
      (hact : Option.Rel (fun a a' => ∀ n, Spreadsheet.Refines P (a n) (a' n)) act act') :
      Refines P S (.production ⟨name, alternatives, act⟩) (.production ⟨name', alternatives, act'⟩)
  | scope {sc : Scope ι E A} (htarget : S sc.target) (hbody : S sc.body)
      (henter : ∀ n s s', P s → sc.enter n s = some s' → P s')
      (hleave : ∀ s t, P s → P t → P (sc.leave s t)) : Refines P S (.scope sc) (.scope sc)

namespace Grammar

variable {S : ι → Prop} {g g' : Grammar ι E A}
  {parse parse' : ι → Text → Computation E (Option (Match ι A))} {symbol : ι} {input : Text}

theorem refines_sequence {symbols : List ι}
    (hparse : ∀ r input, S r → Refines P (parse r input) (parse' r input))
    (hsymbols : ∀ r ∈ symbols, S r) :
    Refines P (sequence parse symbols input) (sequence parse' symbols input) := by
  induction symbols generalizing input with
  | nil => exact Refines.pure _
  | cons r rs ih =>
    refine (hparse r input (hsymbols r List.mem_cons_self)).bind fun result => ?_
    cases result with
    | none => exact Refines.pure _
    | some m =>
      refine (ih fun x hx => hsymbols x (List.mem_cons_of_mem r hx)).bind fun result => ?_
      cases result <;> exact Refines.pure _

/-- Rules that refine one another are both the empty rule or neither is. -/
theorem isVacuous_eq {symbols : List ι}
    (hrules : ∀ r, S r → (g.rule r).Refines P S (g'.rule r)) (hsymbols : ∀ r ∈ symbols, S r) :
    g'.isVacuous symbols = g.isVacuous symbols := by
  match symbols with
  | [] => rfl
  | [r] =>
    have hrule := hrules r (hsymbols r List.mem_cons_self)
    simp only [isVacuous]
    generalize g.rule r = a, g'.rule r = b at hrule
    cases hrule <;> rfl
  | _ :: _ :: _ => rfl

variable [Inhabited A]

theorem refines_accept {name name' : Text} {alternatives : List (List ι)}
    {act act' : Option (Action ι E A)} (index : Nat) (vacuous : Bool) (children : List (Node ι A))
    (hact : Option.Rel (fun a a' => ∀ n, Refines P (a n) (a' n)) act act') :
    Refines P (Production.accept ⟨name, alternatives, act⟩ symbol index vacuous children)
      (Production.accept ⟨name', alternatives, act'⟩ symbol index vacuous children) := by
  cases vacuous with
  | true => exact Refines.pure _
  | false =>
    cases hact with
    | none => exact Refines.pure _
    | some hact =>
      refine (hact _).bind fun result => ?_
      cases result <;> exact Refines.pure _

theorem refines_choose {name name' : Text} {act act' : Option (Action ι E A)}
    {alternatives rest : List (List ι)} (index : Nat)
    (hrules : ∀ r, S r → (g.rule r).Refines P S (g'.rule r))
    (hparse : ∀ r input, S r → Refines P (parse r input) (parse' r input))
    (hsymbols : ∀ symbols ∈ rest, ∀ r ∈ symbols, S r)
    (hact : Option.Rel (fun a a' => ∀ n, Refines P (a n) (a' n)) act act') :
    Refines P (g.choose parse ⟨name, alternatives, act⟩ symbol input index rest)
      (g'.choose parse' ⟨name', alternatives, act'⟩ symbol input index rest) := by
  induction rest generalizing index with
  | nil => exact Refines.pure _
  | cons symbols rest ih =>
    have hfirst := hsymbols symbols List.mem_cons_self
    have hattempt : Refines P
        (g.attempt parse ⟨name, alternatives, act⟩ symbol index symbols input)
        (g'.attempt parse' ⟨name', alternatives, act'⟩ symbol index symbols input) := by
      refine (refines_sequence hparse hfirst).bind fun result => ?_
      cases result with
      | none => exact Refines.pure _
      | some m =>
        rw [isVacuous_eq hrules hfirst]
        refine (refines_accept index _ m.1 hact).bind fun result => ?_
        cases result <;> exact Refines.pure _
    refine hattempt.bind fun result => ?_
    cases result with
    | none => exact ih (index + 1) fun x hx => hsymbols x (List.mem_cons_of_mem symbols hx)
    | some m => exact Refines.pure _

theorem refines_run {fuel fuel' : Nat} (hrules : ∀ r, S r → (g.rule r).Refines P S (g'.rule r))
    (hfuel : fuel ≤ fuel') (hsymbol : S symbol) :
    Refines P (g.run fuel symbol input) (g'.run fuel' symbol input) := by
  induction fuel generalizing fuel' symbol input with
  | zero => exact Refines.none _
  | succ fuel ih =>
    obtain ⟨fuel', rfl⟩ : ∃ m, fuel' = m + 1 := ⟨fuel' - 1, by omega⟩
    have hparse (r : ι) (input : Text) (hr : S r) :
        Refines P (g.run fuel r input) (g'.run fuel' r input) := ih (by omega) hr
    have hrule := hrules symbol hsymbol
    simp only [run]
    generalize g.rule symbol = a, g'.rule symbol = b at hrule
    cases hrule with
    | epsilon => exact Refines.pure _
    | token t => exact Refines.pure _
    | production hsymbols hact => exact refines_choose 0 hrules hparse hsymbols hact
    | @scope sc htarget hbody henter hleave =>
      refine (hparse _ input htarget).bind fun result => ?_
      cases result with
      | none => exact Refines.pure _
      | some m =>
        intro s a u hs h
        simp only [Bind.bind, StateT.bind, get, getThe, MonadStateOf.get, StateT.get,
          Option.pure_def, Option.bind_some] at h ⊢
        cases hinner : sc.enter m.1 s with
        | none =>
          rw [hinner] at h
          cases h
          exact ⟨rfl, hs⟩
        | some inner =>
          rw [hinner] at h
          change (g.run fuel sc.body input inner).bind
            (fun p => some (p.1, sc.leave s p.2)) = some (a, u) at h
          change (g'.run fuel' sc.body input inner).bind
            (fun p => some (p.1, sc.leave s p.2)) = some (a, u) ∧ P u
          obtain ⟨⟨b, v⟩, hv, hresult⟩ := Option.bind_eq_some_iff.mp h
          obtain ⟨hv', hinv⟩ :=
            hparse sc.body input hbody inner b v (henter m.1 s inner hs hinner) hv
          cases hresult
          rw [hv']
          exact ⟨rfl, hleave s v hs hinv⟩

/-- A parse that ends gives the same at every greater depth. -/
theorem run_mono {fuel fuel' : Nat} {s t : E} {result : Option (Match ι A)} (hfuel : fuel ≤ fuel')
    (h : g.run fuel symbol input s = some (result, t)) :
    g.run fuel' symbol input s = some (result, t) := by
  have hrules (r : ι) (_ : True) :
      (g.rule r).Refines (fun _ => True) (fun _ => True) (g.rule r) := by
    generalize g.rule r = rule
    cases rule with
    | epsilon => exact .epsilon
    | token t => exact .token t
    | production p =>
      obtain ⟨name, alternatives, act⟩ := p
      refine .production (fun _ _ _ _ => trivial) ?_
      cases act with
      | none => exact .none
      | some act => exact .some fun n => Refines.true (act n)
    | scope sc => exact .scope trivial trivial (fun _ _ _ _ _ => trivial) fun _ _ _ _ => trivial
  exact (refines_run hrules hfuel trivial s result t trivial h).1

end Grammar
end Spreadsheet
