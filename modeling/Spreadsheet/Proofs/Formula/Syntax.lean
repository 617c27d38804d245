import Spreadsheet.Formula.Grammar
import Spreadsheet.Proofs.Grammar.Triple

/-! # Syntax of formulas

Expressions and statements as data. The factors of an expression are a parameter: they are words of
a text with what they denote, parse trees, or plain values. A syntax has words, a value over the
values of its factors, and the parse tree that a match of it builds.
-/
namespace Spreadsheet.Formula

variable {α β γ : Type}

/-- One item or more, as they stand between marks. -/
structure Chain (α : Type) where
  head : α
  tail : List α
  deriving DecidableEq, Repr

namespace Chain

def toList (c : Chain α) : List α := c.head :: c.tail

def map (f : α → β) (c : Chain α) : Chain β := ⟨f c.head, c.tail.map f⟩

def fold (op : α → α → α) : α → List α → α
  | a, [] => a
  | a, b :: bs => op a (fold op b bs)

def combine (op : α → α → α) (c : Chain α) : α := fold op c.head c.tail

def words (mark : Text) (spell : α → List Text) (c : Chain α) : List Text :=
  spell c.head ++ c.tail.flatMap fun a => mark :: spell a

def join (mark : Text) (text : α → Text) (c : Chain α) : Text :=
  text c.head ++ c.tail.flatMap fun a => mark ++ text a

@[simp] theorem toList_map (f : α → β) (c : Chain α) : (c.map f).toList = c.toList.map f := rfl

theorem map_map (f : α → β) (h : β → γ) (c : Chain α) : (c.map f).map h = c.map (h ∘ f) := by
  simp [map]

theorem map_congr {f h : α → β} {c : Chain α} (hc : ∀ a ∈ c.toList, f a = h a) :
    c.map f = c.map h := by
  simp only [map, mk.injEq]
  exact ⟨hc _ (by simp [toList]), List.map_congr_left fun a ha => hc a (by simp [toList, ha])⟩

theorem words_map (mark : Text) (spell : β → List Text) (f : α → β) (c : Chain α) :
    (c.map f).words mark spell = c.words mark (spell ∘ f) := by
  simp [words, map, List.flatMap_map]

theorem join_map (mark : Text) (text : β → Text) (f : α → β) (c : Chain α) :
    (c.map f).join mark text = c.join mark (text ∘ f) := by
  simp [join, map, List.flatMap_map]

theorem flatten_words (mark : Text) (spell : α → List Text) (c : Chain α) :
    (c.words mark spell).flatten = c.join mark fun a => (spell a).flatten := by
  rw [words, join, List.flatten_append]
  congr 1
  induction c.tail with
  | nil => rfl
  | cons a as ih => simp [ih]

end Chain

inductive Expression (α : Type) where
  | sum (terms : Chain (Chain α))
  | quoted (body : Text)
  deriving DecidableEq, Repr

def quote (body : Text) : Text := Text.byte '"' :: (body ++ [Text.byte '"'])

namespace Expression

def map (f : α → β) : Expression α → Expression β
  | .sum terms => .sum (terms.map (·.map f))
  | .quoted body => .quoted body

def factors : Expression α → List α
  | .sum terms => terms.toList.flatMap Chain.toList
  | .quoted _ => []

def value : Expression Value → Value
  | .sum terms => (terms.map (·.combine Value.mul)).combine Value.add
  | .quoted body => .str (quote body)

/-- The words of an expression; a text in quotes is a single one. -/
def words (spell : α → List Text) : Expression α → List Text
  | .sum terms => terms.words (Text.ofString "+") (·.words (Text.ofString "*") spell)
  | .quoted body => [quote body]

theorem map_map (f : α → β) (h : β → γ) (e : Expression α) : (e.map f).map h = e.map (h ∘ f) := by
  cases e with
  | sum terms =>
    simp only [map, Chain.map_map, sum.injEq]
    exact Chain.map_congr fun t _ => Chain.map_map f h t
  | quoted body => rfl

theorem map_congr {f h : α → β} {e : Expression α} (he : ∀ a ∈ e.factors, f a = h a) :
    e.map f = e.map h := by
  cases e with
  | sum terms =>
    simp only [map, sum.injEq]
    refine Chain.map_congr fun t ht => Chain.map_congr fun a ha => he a ?_
    exact List.mem_flatMap.mpr ⟨t, ht, ha⟩
  | quoted body => rfl

theorem words_map (spell : β → List Text) (f : α → β) (e : Expression α) :
    (e.map f).words spell = e.words (spell ∘ f) := by
  cases e with
  | sum terms =>
    simp only [map, words, Chain.words_map]
    congr 1
    funext t
    exact Chain.words_map _ spell f t
  | quoted body => rfl

end Expression

/-- A word of digits, with a sign or not, and the integer that it denotes. -/
structure Numeral where
  word : Text
  value : Int64
  deriving DecidableEq, Repr

/-- A label and a row number, and the cell that they denote. -/
structure Address where
  label : Text
  number : Numeral
  ref : Ref
  deriving DecidableEq, Repr

inductive Factor where
  | absolute (a : Address)
  | relative (rows cols : Numeral) (ref : Ref)
  | integer (n : Numeral)
  deriving DecidableEq, Repr

def Address.words (a : Address) : List Text := [a.label, a.number.word]

namespace Factor

def words : Factor → List Text
  | .absolute a => a.words
  | .relative rows cols _ => [Text.ofString "r", rows.word, Text.ofString "c", cols.word]
  | .integer n => [n.word]

def refs : Factor → List Ref
  | .absolute a => [a.ref]
  | .relative _ _ r => [r]
  | .integer _ => []

def value (env : Ref → Value) : Factor → Value
  | .absolute a => env a.ref
  | .relative _ _ r => env r
  | .integer n => .int n.value

end Factor

namespace Expression

def text (e : Expression Factor) : Text := (e.words Factor.words).flatten

theorem text_sum (terms : Chain (Chain Factor)) :
    (Expression.sum terms).text = terms.join (Text.ofString "+")
      (·.join (Text.ofString "*") fun f => f.words.flatten) := by
  simp only [text, words, Chain.flatten_words]

theorem text_quoted (body : Text) : (Expression.quoted body).text = quote body := by
  simp [text, words]

/-- The cells that an expression reads, in the order of its text. -/
def refs (e : Expression Factor) : List Ref := e.factors.flatMap Factor.refs

/-- The value of an expression over the values of the cells. -/
def eval (env : Ref → Value) (e : Expression Factor) : Value := (e.map (Factor.value env)).value

theorem eval_congr {env env' : Ref → Value} {e : Expression Factor}
    (h : ∀ r ∈ e.refs, env r = env' r) : e.eval env = e.eval env' := by
  unfold eval
  refine congrArg value (map_congr fun f hf => ?_)
  have hrefs : ∀ r ∈ f.refs, env r = env' r :=
    fun r hr => h r (List.mem_flatMap.mpr ⟨f, hf, hr⟩)
  cases f with
  | absolute a => exact hrefs _ (by simp [Factor.refs])
  | relative rows cols r => exact hrefs _ (by simp [Factor.refs])
  | integer n => rfl

end Expression

section Strictness

theorem add_empty_left (v : Value) : Value.add .empty v = .empty := by cases v <;> rfl

theorem add_empty_right (v : Value) : Value.add v .empty = .empty := by cases v <;> rfl

theorem mul_empty_left (v : Value) : Value.mul .empty v = .empty := by cases v <;> rfl

theorem mul_empty_right (v : Value) : Value.mul v .empty = .empty := by cases v <;> rfl

theorem Chain.combine_eq_empty {op : Value → Value → Value} (hleft : ∀ v, op .empty v = .empty)
    (hright : ∀ v, op v .empty = .empty) {c : Chain Value} (hc : .empty ∈ c.toList) :
    c.combine op = .empty := by
  obtain ⟨v, vs⟩ := c
  simp only [combine, toList] at hc ⊢
  induction vs generalizing v with
  | nil => simpa [fold, eq_comm] using hc
  | cons w ws ih =>
    rw [fold]
    rcases List.mem_cons.mp hc with rfl | hw
    · exact hleft _
    · rw [ih w hw, hright]

/-- An expression with an empty factor is empty. -/
theorem Expression.eval_eq_empty {env : Ref → Value} {e : Expression Factor} {r : Ref}
    (hr : r ∈ e.refs) (henv : env r = .empty) : e.eval env = .empty := by
  obtain ⟨f, hf, hrf⟩ := List.mem_flatMap.mp hr
  have hvalue : f.value env = .empty := by
    cases f with
    | absolute a =>
      rw [List.mem_singleton.mp hrf] at henv
      exact henv
    | relative rows cols x =>
      rw [List.mem_singleton.mp hrf] at henv
      exact henv
    | integer n => cases hrf
  cases e with
  | quoted body => cases hf
  | sum terms =>
    obtain ⟨c, hc, hfc⟩ := List.mem_flatMap.mp hf
    have hproduct : (c.map (Factor.value env)).combine Value.mul = .empty := by
      refine Chain.combine_eq_empty mul_empty_left mul_empty_right ?_
      rw [Chain.toList_map]
      exact List.mem_map.mpr ⟨f, hfc, hvalue⟩
    refine Chain.combine_eq_empty add_empty_left add_empty_right ?_
    rw [Chain.toList_map, Chain.toList_map, List.map_map]
    exact List.mem_map.mpr ⟨c, hc, hproduct⟩

end Strictness

inductive Statement where
  | assign (target : Address) (e : Expression Factor)
  | print (kind : ReportKind) (e : Expression Factor)
  deriving DecidableEq, Repr

namespace Statement

def words : Statement → List Text
  | .assign target e => target.words ++ Text.ofString ":=" :: e.words Factor.words
  | .print kind e => Text.ofString kind.keyword :: e.words Factor.words

end Statement

end Spreadsheet.Formula
