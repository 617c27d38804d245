import Spreadsheet.Proofs.Formula.Reading
import Mathlib.Data.List.TakeWhile

/-! # Valid formulas

A syntax is valid in a context if its words are of their classes and denote what the syntax says
they denote. Whatever a reader reads is valid.
-/
namespace Spreadsheet.Formula

def IsRun (p : UInt8 → Bool) (w : Text) : Prop := w ≠ [] ∧ ∀ b ∈ w, p b

def IsSigned (w : Text) : Prop :=
  IsRun Text.isDigit w ∨ ∃ ds, w = Text.byte '-' :: ds ∧ IsRun Text.isDigit ds

def Numeral.Valid (isWord : Text → Prop) (n : Numeral) : Prop :=
  isWord n.word ∧ Decimal.read n.word = .ok n.value

def Address.Valid (a : Address) : Prop :=
  IsRun Text.isUpper a.label ∧ a.number.Valid (IsRun Text.isDigit) ∧
    Ref.ofLabel a.label a.number.value = .ok a.ref

def Factor.Valid (context : Option Ref) : Factor → Prop
  | .absolute a => a.Valid
  | .relative rows cols r => rows.Valid IsSigned ∧ cols.Valid IsSigned ∧
    ∃ origin, context = some origin ∧ origin.shift? rows.value cols.value = some r
  | .integer n => n.Valid IsSigned

def Expression.Valid (context : Option Ref) : Expression Factor → Prop
  | .sum terms => ∀ c ∈ terms.toList, ∀ f ∈ c.toList, f.Valid context
  | .quoted body => IsRun (· != Text.byte '"') body

def Statement.Valid (context : Option Ref) : Statement → Prop
  | .assign target e => target.Valid ∧ e.Valid (some target.ref)
  | .print _ e => e.Valid context

section Words

variable {p : UInt8 → Bool} {input w rest : Text}

theorem isRun_takeWhile {t : Text} (h : t.takeWhile p ≠ []) : IsRun p (t.takeWhile p) :=
  ⟨h, fun _ hb => List.mem_takeWhile_imp hb⟩

theorem take_run (t : Text) : t.take (Scan.run p t) = t.takeWhile p :=
  (List.prefix_iff_eq_take.mp (List.takeWhile_prefix p)).symm

theorem isRun_of_readWord (h : readWord (Scan.run p) input = some (w, rest)) : IsRun p w := by
  obtain ⟨hw, hne, -⟩ := readWord_eq_some h
  rw [take_run] at hw
  subst hw
  exact isRun_takeWhile hne

theorem isSigned_of_readWord (h : readWord Scan.signedDigits input = some (w, rest)) :
    IsSigned w := by
  obtain ⟨hw, hne, -⟩ := readWord_eq_some h
  cases ht : input.trim with
  | nil => simp [ht] at hw; exact absurd hw hne
  | cons b r =>
    rw [ht, Scan.signedDigits] at hw
    by_cases hb : b = Text.byte '-'
    · rw [if_pos hb] at hw
      cases hrun : Scan.run Text.isDigit r with
      | zero => simp [hrun] at hw; exact absurd hw hne
      | succ n =>
        have htake : r.take (n + 1) = r.takeWhile Text.isDigit := by rw [← hrun, take_run]
        rw [hrun] at hw
        simp only [List.take_succ_cons, htake] at hw
        refine .inr ⟨_, hb ▸ hw, isRun_takeWhile fun hnil => ?_⟩
        simp [Scan.run, hnil] at hrun
    · rw [if_neg hb, take_run] at hw
      subst hw
      exact .inl (isRun_takeWhile hne)

end Words

section Soundness

variable {α : Type} {context : Option Ref} {input rest : Text}

theorem Numeral.valid_of_read {scan : Text → Nat} {isWord : Text → Prop} {n : Numeral}
    (hword : ∀ w r, readWord scan input = some (w, r) → isWord w)
    (h : Numeral.read scan input = some (n, rest)) : n.Valid isWord :=
  ⟨hword _ _ (Numeral.read_eq_some h).1, (Numeral.read_eq_some h).2⟩

theorem Numeral.valid_of_read_signed {n : Numeral}
    (h : Numeral.read Scan.signedDigits input = some (n, rest)) : n.Valid IsSigned :=
  valid_of_read (fun _ _ => isSigned_of_readWord) h

theorem Address.valid_of_read {a : Address} (h : Address.read input = some (a, rest)) :
    a.Valid := by
  obtain ⟨middle, hlabel, hnumber, href⟩ := Address.read_eq_some h
  exact ⟨isRun_of_readWord hlabel, Numeral.valid_of_read (fun _ _ => isRun_of_readWord) hnumber, href⟩

theorem Factor.valid_of_readReference {f : Factor}
    (h : Factor.readReference context input = some (f, rest)) : f.Valid context := by
  rcases Factor.readReference_eq_some h with ⟨a, ha, rfl⟩ | ⟨rows, cols, ref, -, rfl, hrelative⟩
  · exact Address.valid_of_read ha
  · obtain ⟨_, _, _, _, _, origin, _, -, hrows, -, hcols, hctx, hshift, heq⟩ :=
      Factor.readRelative_eq_some hrelative
    cases heq
    exact ⟨Numeral.valid_of_read_signed hrows, Numeral.valid_of_read_signed hcols, origin, hctx,
      hshift⟩

theorem Factor.valid_of_read {f : Factor} (h : Factor.read context input = some (f, rest)) :
    f.Valid context := by
  simp only [Factor.read, Option.or_eq_some_iff, Option.map_eq_some_iff] at h
  rcases h with h | ⟨-, ⟨n, r⟩, hn, h⟩
  · exact Factor.valid_of_readReference h
  · cases h
    exact Numeral.valid_of_read_signed hn

theorem forall_of_many {item : Text → Option (α × Text)} {P : α → Prop} (hitem : Consumes item)
    (h : ∀ input a rest, item input = some (a, rest) → P a) (input : Text) :
    ∀ a ∈ (many item input).1, P a := by
  induction input using many_induction hitem with
  | stop input hnone => simp [many_none hnone]
  | step input a rest hsome ih =>
    rw [many_some hitem hsome]
    simp only [List.mem_cons, forall_eq_or_imp]
    exact ⟨h _ _ _ hsome, ih⟩

theorem forall_of_chain {mark : String} {item : Text → Option (α × Text)} {P : α → Prop}
    {c : Chain α} (hitem : Consumes item) (h : ∀ input a rest, item input = some (a, rest) → P a)
    (hc : Chain.read mark item input = some (c, rest)) : ∀ a ∈ c.toList, P a := by
  obtain ⟨⟨a, r⟩, ha, heq⟩ := Option.map_eq_some_iff.mp hc
  cases heq
  have hfollowing (input : Text) (a : α) (rest : Text)
      (hread : following mark item input = some (a, rest)) : P a := by
    obtain ⟨middle, -, hread⟩ := Option.bind_eq_some_iff.mp hread
    exact h _ _ _ hread
  simp only [Chain.toList, List.mem_cons, forall_eq_or_imp]
  exact ⟨h _ _ _ ha, forall_of_many (consumes_following mark hitem) hfollowing r⟩

theorem Expression.valid_of_read {e : Expression Factor}
    (h : Expression.read context input = some (e, rest)) : e.Valid context := by
  simp only [Expression.read, Option.or_eq_some_iff, Option.map_eq_some_iff] at h
  rcases h with ⟨⟨terms, r⟩, hterms, h⟩ | ⟨-, ⟨body, r⟩, hbody, h⟩
  · cases h
    refine forall_of_chain (consumes_chain "*" (consumes_factor context)) ?_ hterms
    intro input c rest hc
    exact forall_of_chain (consumes_factor context) (fun _ _ _ => Factor.valid_of_read) hc
  · cases h
    obtain ⟨middle, -, rfl, hne, -⟩ := readQuoted_eq_some hbody
    exact isRun_takeWhile hne

theorem Statement.valid_of_read {st : Statement} (h : Statement.read context input = some (st, rest)) :
    st.Valid context := by
  simp only [Statement.read, Option.or_eq_some_iff] at h
  rcases h with h | ⟨-, h | ⟨-, h⟩⟩
  · obtain ⟨target, t₁, t₂, e, htarget, -, he, rfl⟩ := Statement.readAssignment_eq_some h
    exact ⟨Address.valid_of_read htarget, Expression.valid_of_read he⟩
  · obtain ⟨middle, e, -, he, rfl⟩ := Statement.readPrint_eq_some h
    exact Expression.valid_of_read he
  · obtain ⟨middle, e, -, he, rfl⟩ := Statement.readPrint_eq_some h
    exact Expression.valid_of_read he

theorem valid_of_readProgram (context : Option Ref) (input : Text) :
    ∀ st ∈ (readProgram context input).1, st.Valid context :=
  forall_of_many (consumes_statement context) (fun _ _ _ => Statement.valid_of_read) input

end Soundness

end Spreadsheet.Formula
