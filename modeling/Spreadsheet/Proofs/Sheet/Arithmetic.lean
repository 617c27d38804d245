import Spreadsheet.Proofs.Formula.Factors
import Spreadsheet.Proofs.Sheet.Execution

/-! # Arithmetic of expressions

An expression is evaluated while it is parsed, one cell after the other, and every read rewrites
caches. Its value is still the sum of the products of its factors, each taken on the sheet that the
parse started from: an integer is the number that its text denotes, and a reference is what a read
of its cell gives.
-/
namespace Spreadsheet

open Formula Grammar

namespace Sheet

section References

variable {s : Sheet} {context : Option Ref} {text : Text} {r : Ref} {e : Expression Factor}

/-- The text is a reference and nothing else, and in the context it denotes the cell. -/
def RefersTo (s : Sheet) (context : Option Ref) (text : Text) (r : Ref) : Prop :=
  ∃ m t, parse .cellReference context text s = some (some (m, []), t) ∧ m.attr.ref = some r

theorem refersTo_iff : s.RefersTo context text r ↔
    ((Factor.readReference (context.or s.context) text).bind fun p =>
      if p.2 = [] then p.1.refs.head? else none) = some r := by
  have hattr (f : Factor) : f.referenceTree.attr.ref = f.refs.head? := by cases f <;> rfl
  obtain ⟨t, hparse, -⟩ := parse_of_gives (s := s) context
    (gives_parse_reference effects { s with context := context.or s.context } text)
  rw [RefersTo, hparse]
  cases Factor.readReference (context.or s.context) text with
  | none => simp
  | some p =>
    obtain ⟨f, rest⟩ := p
    by_cases hrest : rest = []
    · simp [hrest, hattr]
    · simp [hrest]

theorem refersTo_text (he : e.Valid (context.or s.context)) :
    s.RefersTo context e.text r ↔ e.single? = some r := by
  rw [refersTo_iff, readReference_text he]

end References

section Factors

variable {s : Sheet} {context : Option Ref} {f : Factor} {r : Ref}

/-- The node of a factor holds what its text denotes: a number, or a cell together with the value
that a read of the cell gives. -/
def Denotes (s : Sheet) (context : Option Ref) (n : Tree) : Prop :=
  (∃ i, Decimal.read n.text = .ok i ∧ n.attr = { value := .int i }) ∨
  ∃ r c t, s.RefersTo context n.text r ∧ compute r s = some (c, t) ∧
    n.attr = { value := c.value, ref := some r }

theorem refersTo_factor (hf : f.Valid (context.or s.context)) (hr : f.refs.head? = some r) :
    s.RefersTo context f.words.flatten r := by
  have hvalid : (Expression.sum ⟨⟨f, []⟩, []⟩).Valid (context.or s.context) := by
    simpa [Expression.Valid, Chain.toList] using hf
  have htext : (Expression.sum ⟨⟨f, []⟩, []⟩).text = f.words.flatten := by
    simp [Expression.text_sum, Chain.join]
  rw [← htext, refersTo_text hvalid]
  exact hr

theorem denotes_factor (hon : s.detectsCycles = true) (hf : f.Valid (context.or s.context)) :
    s.Denotes context (f.tree (s.cells.valueOf s.evaluating)) := by
  rw [Denotes, Factor.tree_text]
  have hread (x : Ref) : ∃ c t, compute x s = some (c, t) ∧
      c.value = s.cells.valueOf s.evaluating x := by
    obtain ⟨t, hcompute, -⟩ := compute_of_detects hon x
    exact ⟨_, t, hcompute, s.cells.shown_value s.evaluating x⟩
  cases f with
  | integer n => exact .inl ⟨n.value, by simpa [Factor.words] using hf.2, rfl⟩
  | absolute a =>
    obtain ⟨c, t, hcompute, hvalue⟩ := hread a.ref
    exact .inr ⟨a.ref, c, t, refersTo_factor hf rfl, hcompute, by rw [hvalue]; rfl⟩
  | relative rows cols x =>
    obtain ⟨c, t, hcompute, hvalue⟩ := hread x
    exact .inr ⟨x, c, t, refersTo_factor hf rfl, hcompute, by rw [hvalue]; rfl⟩

end Factors

/-- Arithmetic is a sum of products. The text of an expression falls apart at its additions and
multiplications into the texts of its factors. Each of these is a number, or a reference with what a
read of it gives, and the value of the expression is the sum of the products of their values. -/
theorem parse_expression_sum {s t : Sheet} {context : Option Ref} {src rest : Text} {n : Tree}
    (hon : s.detectsCycles = true)
    (hparse : parse .expression context src s = some (some (n, rest), t))
    (hsum : n.alternative = some 0) :
    (n.text.splitOn (Text.byte '+')).map (·.splitOn (Text.byte '*')) =
      (factorNodes n).map (·.map (·.text)) ∧
    (∀ term ∈ factorNodes n, ∀ f ∈ term, s.Denotes context f) ∧
    n.attr.value = sumOfProducts ((factorNodes n).map (·.map (·.attr.value))) := by
  obtain ⟨u, hu⟩ := exists_parse_expression hon context src
  have hresult := congrArg Prod.fst (Option.some.inj (hu.symm.trans hparse))
  obtain ⟨⟨e, _⟩, hread, heq⟩ := Option.map_eq_some_iff.mp hresult
  cases heq
  have hvalid := Expression.valid_of_read hread
  cases e with
  | quoted body => cases hsum
  | sum terms =>
    rw [factorNodes_sum]
    refine ⟨?_, ?_, ?_⟩
    · rw [Expression.tree_text, Expression.splitOn_text hvalid]
      simp
    · simp only [List.forall_mem_map]
      exact fun c hc f hf => denotes_factor hon (hvalid c hc f hf)
    · rw [Expression.tree_attr, Expression.eval, Expression.map, value_sum]
      simp [Function.comp_def]

def doubled : Sheet where
  cells := (Cells.empty.insert ⟨0, 0⟩ ⟨Text.ofString "C1 * 2", .empty⟩).insert ⟨0, 2⟩
    ⟨Text.ofString "3", .empty⟩
  detectsCycles := true

/-- Six times -4, and three times the largest integer, which goes around. -/
theorem parse_expression_sum_doubled : doubled.detectsCycles = true ∧ ∃ n rest t,
    parse .expression (some ⟨0, 0⟩) (Text.ofString "A1 * -4 + r0c2*9223372036854775807 !") doubled =
      some (some (n, rest), t) ∧
    n.alternative = some 0 ∧
    (factorNodes n).map (·.map (·.text)) =
      [[Text.ofString "A1", Text.ofString "-4"],
        [Text.ofString "r0c2", Text.ofString "9223372036854775807"]] ∧
    (∀ term ∈ factorNodes n, ∀ f ∈ term, doubled.Denotes (some ⟨0, 0⟩) f) ∧
    n.attr.value = sumOfProducts ((factorNodes n).map (·.map (·.attr.value))) ∧
    n.attr.value = .int 9223372036854775781 := by
  refine ⟨rfl, ?_⟩
  have hrun : (parse .expression (some ⟨0, 0⟩)
        (Text.ofString "A1 * -4 + r0c2*9223372036854775807 !") doubled).map
        (·.1.map fun m => (m.1.alternative, m.1.text, m.1.attr.value)) =
      some (some (some 0, Text.ofString "A1*-4+r0c2*9223372036854775807",
        .int 9223372036854775781)) := by
    decide +kernel
  obtain ⟨⟨result, t⟩, hparse, heq⟩ := Option.map_eq_some_iff.mp hrun
  obtain ⟨⟨n, rest⟩, rfl, hn⟩ := Option.map_eq_some_iff.mp heq
  simp only [Prod.mk.injEq] at hn
  obtain ⟨htexts, hfactors, hvalue⟩ := parse_expression_sum rfl hparse hn.1
  rw [hn.2.1] at htexts
  exact ⟨n, rest, t, hparse, hn.1, htexts.symm.trans (by decide +kernel), hfactors, hvalue, hn.2.2⟩

end Sheet
end Spreadsheet
