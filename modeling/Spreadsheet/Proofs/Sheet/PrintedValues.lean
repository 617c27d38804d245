import Spreadsheet.Proofs.Formula.Abstract
import Spreadsheet.Proofs.Sheet.Reachable

/-! # Values read back

The text that shows a value is an expression without references: a number, or a text in quotes. So
it is parsed wherever it stands, reads no cell, and has the value that it shows.
-/
namespace Spreadsheet

open Formula Grammar Text

section Literals

/-- An expression that is the text of a value and says it by itself: it is valid in every context
and reads no cell. -/
structure Formula.Expression.IsLiteral (e : Expression Factor) (v : Value) : Prop where
  text : e.text = v.text
  valid : ∀ context, e.Valid context
  refs : e.refs = []
  eval : ∀ env, e.eval env = v

theorem Formula.isLiteral_integer (i : Int64) :
    (Expression.sum ⟨⟨.integer ⟨Decimal.ofInt64 i, i⟩, []⟩, []⟩).IsLiteral (.int i) where
  text := by simp [Expression.text_sum, Chain.join, Factor.words, Value.text]
  valid context := by
    simp only [Expression.Valid, Chain.toList, List.mem_singleton, forall_eq]
    exact ⟨isSigned_ofInt64 i, Decimal.read_ofInt64 i⟩
  refs := rfl
  eval _ := rfl

theorem Formula.isLiteral_quoted {body : Text} (h : IsRun (· != byte '"') body) :
    (Expression.quoted body : Expression Factor).IsLiteral (.str (quote body)) where
  text := Expression.text_quoted body
  valid _ := h
  refs := rfl
  eval _ := rfl

/-- Every value but the empty one has a literal, if texts among the values stand in quotes. -/
theorem Value.IsQuoted.exists_literal {v : Value} (hv : v.IsQuoted) (hne : v ≠ .empty) :
    ∃ e : Expression Factor, e.IsLiteral v := by
  cases v with
  | empty => exact absurd rfl hne
  | int i => exact ⟨_, isLiteral_integer i⟩
  | str t =>
    obtain ⟨body, hbody, rfl⟩ := hv t rfl
    exact ⟨_, isLiteral_quoted hbody⟩

end Literals

namespace Sheet

/-- A literal is parsed without a look at the cells, so that cycles do not matter. -/
theorem exists_parse_literal {e : Expression Factor} {v : Value} (h : e.IsLiteral v)
    (context : Option Ref) (s : Sheet) :
    ∃ t, Sheet.parse .expression context e.text s = some (some (e.tree fun _ => .empty, []), t) ∧
      s.After s.cells [] t := by
  let start : Sheet := { s with context := context.or s.context }
  have hfuel : 7 + e.text.length ≤ (grammar effects).depth e.text := by
    have := le_depth effects e.text
    omega
  have hnone : ∀ r ∈ e.refs, False := by simp [h.refs]
  have hgives {At : List Ref → Sheet → Prop}
      (hp : Passage effects start.context (fun _ => {}) (fun _ => False) At) :
      Gives (At []) ((grammar effects).parse .expression e.text) _ _ :=
    hp.matches_expression.success hfuel (Expression.read_text (h.valid _)) hnone
  -- Nothing is looked up, so the sheet is the same at every point.
  have hpassage : Passage effects start.context (fun _ => {}) (fun _ => False)
      (fun _ => start.After s.cells []) :=
    ⟨fun hu => hu.context_eq, fun message hu => hu.debug message, fun hmay => hmay.elim⟩
  exact parse_of_gives context (hgives hpassage)

end Sheet

/-- The text that shows the value is an expression, to its end, in every context and on every sheet.
The expression has the value, and no cell is touched. -/
def Value.ReadsBack (v : Value) : Prop :=
  ∀ (context : Option Ref) (s : Sheet), ∃ n t,
    Sheet.parse .expression context v.text s = some (some (n, []), t) ∧
      n.attr.value = v ∧ t.cells = s.cells

theorem Value.IsQuoted.readsBack {v : Value} (hv : v.IsQuoted) (hne : v ≠ .empty) :
    v.ReadsBack := by
  intro context s
  obtain ⟨e, he⟩ := hv.exists_literal hne
  obtain ⟨t, hparse, hafter⟩ := Sheet.exists_parse_literal he context s
  rw [he.text] at hparse
  exact ⟨_, t, hparse, by rw [Expression.tree_attr, he.eval], hafter.cells_eq⟩

namespace Sheet

/-- Whatever a read of a reachable sheet shows is read back from its text. In particular every
integer is, and every text in quotes, whatever bytes stand in it. -/
theorem Reachable.readsBack_shown :
    (∀ s, Reachable s → ∀ r, ∃ c t, Sheet.compute r s = some (c, t) ∧
      (c.value ≠ .empty → c.value.ReadsBack)) ∧
    (∀ i, (Value.int i).ReadsBack) ∧
    ∀ body : Text, body ≠ [] → byte '"' ∉ body →
      (Value.str (byte '"' :: (body ++ [byte '"']))).ReadsBack := by
  refine ⟨fun s h r => ?_, fun i => ?_, fun body hne hquote => ?_⟩
  · have hsettled := h.settled
    obtain ⟨t, hrun, -⟩ := hsettled.compute r
    refine ⟨_, t, hrun, Value.IsQuoted.readsBack ?_⟩
    rw [Cells.shown_value]
    exact hsettled.sound.isQuoted_valueOf [] r
  · exact Value.IsQuoted.readsBack nofun nofun
  · refine Value.IsQuoted.readsBack (fun t ht => ?_) nofun
    have hbody : IsRun (· != byte '"') body := by
      refine ⟨hne, fun b hb => ?_⟩
      rw [bne_iff_ne]
      exact ne_of_mem_of_not_mem hb hquote
    exact ⟨body, hbody, (Value.str.inj ht).symm⟩

/-- A sum that wraps to the least integer, and a cell that shows a text with blanks, a newline and
bytes that are no characters. -/
def extremes : Text :=
  ofString "A1 := 9223372036854775807 B1 := A1+1 C1 := \" \n" ++ [0xFF, 0xC3] ++
    ofString " \" D1 := C1"

theorem Reachable.readsBack_shown_extremes : ∃ s, Reachable s ∧
    (∃ t, Sheet.compute ⟨0, 1⟩ s = some (⟨ofString "A1+1", .int Int64.minValue⟩, t)) ∧
    (∃ t, Sheet.compute ⟨0, 3⟩ s =
      some (⟨ofString "C1", .str (ofString "\" \n" ++ [0xFF, 0xC3] ++ ofString " \"")⟩, t)) ∧
    (Value.int Int64.minValue).ReadsBack ∧
    (Value.str (ofString "\" \n" ++ [0xFF, 0xC3] ++ ofString " \"")).ReadsBack := by
  obtain ⟨s, hrun, -⟩ := execute_eq (s := { detectsCycles := true }) rfl extremes
  have hvalues : (Sheet.execute extremes { detectsCycles := true }).bind (fun p =>
      ((Sheet.compute ⟨0, 1⟩ p.2).map (·.1)).bind fun c =>
        (Sheet.compute ⟨0, 3⟩ p.2).map fun q => (c, q.1)) =
      some (⟨ofString "A1+1", .int Int64.minValue⟩,
        ⟨ofString "C1", .str (ofString "\" \n" ++ [0xFF, 0xC3] ++ ofString " \"")⟩) := by
    decide +kernel
  have hreachable : Reachable s := .execute .new hrun
  obtain ⟨c, t, hc, hback⟩ := readsBack_shown.1 s hreachable ⟨0, 1⟩
  obtain ⟨d, u, hd, hback'⟩ := readsBack_shown.1 s hreachable ⟨0, 3⟩
  rw [hrun, Option.bind_some, hc, hd] at hvalues
  obtain ⟨rfl, rfl⟩ := Prod.mk.inj (Option.some.inj hvalues)
  exact ⟨s, hreachable, ⟨t, hc⟩, ⟨u, hd⟩, hback nofun, hback' nofun⟩

end Sheet

end Spreadsheet
