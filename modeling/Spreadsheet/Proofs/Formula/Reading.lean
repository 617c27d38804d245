import Spreadsheet.Proofs.Formula.Syntax
import Spreadsheet.Proofs.Text.Trim

/-! # Reading formulas

Readers for the syntax of formulas, without parse trees and without effects: what a text reads as
depends on the text and the context alone. Every reader consumes part of its input.
-/
namespace Spreadsheet.Formula

variable {α : Type}

section Readers

def readWord (scan : Text → Nat) (input : Text) : Option (Text × Text) :=
  let word := input.trim.take (scan input.trim)
  if word.isEmpty then none else some (word, input.trim.drop word.length)

def readMark (word : String) (input : Text) : Option Text :=
  (readWord (Scan.literal (Text.ofString word)) input).map (·.2)

def Numeral.read (scan : Text → Nat) (input : Text) : Option (Numeral × Text) := do
  let (word, rest) ← readWord scan input
  let value ← (Decimal.read word).toOption
  some (⟨word, value⟩, rest)

def Address.read (input : Text) : Option (Address × Text) := do
  let (label, rest) ← readWord (Scan.run Text.isUpper) input
  let (number, rest) ← Numeral.read (Scan.run Text.isDigit) rest
  let ref ← (Ref.ofLabel label number.value).toOption
  some (⟨label, number, ref⟩, rest)

def Factor.readRelative (context : Option Ref) (input : Text) : Option (Factor × Text) := do
  let rest ← readMark "r" input
  let (rows, rest) ← Numeral.read Scan.signedDigits rest
  let rest ← readMark "c" rest
  let (cols, rest) ← Numeral.read Scan.signedDigits rest
  let origin ← context
  let ref ← origin.shift? rows.value cols.value
  some (.relative rows cols ref, rest)

def Factor.readReference (context : Option Ref) (input : Text) : Option (Factor × Text) :=
  ((Address.read input).map fun (a, rest) => (.absolute a, rest)).or (readRelative context input)

def Factor.read (context : Option Ref) (input : Text) : Option (Factor × Text) :=
  (readReference context input).or <|
    (Numeral.read Scan.signedDigits input).map fun (n, rest) => (.integer n, rest)

/-- Items as long as there are any; each must take something. -/
def many (item : Text → Option (α × Text)) (input : Text) : List α × Text :=
  match item input with
  | none => ([], input)
  | some (a, rest) =>
    if rest.length < input.length then (a :: (many item rest).1, (many item rest).2)
    else ([], input)
  termination_by input.length

def following (mark : String) (item : Text → Option (α × Text)) (input : Text) :
    Option (α × Text) :=
  (readMark mark input).bind item

def Chain.read (mark : String) (item : Text → Option (α × Text)) (input : Text) :
    Option (Chain α × Text) :=
  (item input).map fun (a, rest) =>
    (⟨a, (many (following mark item) rest).1⟩, (many (following mark item) rest).2)

def readQuoted (input : Text) : Option (Text × Text) := do
  let rest ← readMark "\"" input
  let body := rest.takeWhile (· != Text.byte '"')
  if body.isEmpty then none
  else (readMark "\"" (rest.drop body.length)).map fun rest => (body, rest)

def Expression.read (context : Option Ref) (input : Text) : Option (Expression Factor × Text) :=
  ((Chain.read "+" (Chain.read "*" (Factor.read context)) input).map
      fun (terms, rest) => (.sum terms, rest)).or <|
    (readQuoted input).map fun (body, rest) => (.quoted body, rest)

def Statement.readAssignment (input : Text) : Option (Statement × Text) := do
  let (target, rest) ← Address.read input
  let rest ← readMark ":=" rest
  let (e, rest) ← Expression.read (some target.ref) rest
  some (.assign target e, rest)

def Statement.readPrint (context : Option Ref) (kind : ReportKind) (input : Text) :
    Option (Statement × Text) :=
  (following kind.keyword (Expression.read context) input).map
    fun (e, rest) => (.print kind e, rest)

def Statement.read (context : Option Ref) (input : Text) : Option (Statement × Text) :=
  (readAssignment input).or <| (readPrint context .value input).or <|
    readPrint context .expression input

/-- The longest program at the start of a text. -/
def readProgram (context : Option Ref) (input : Text) : List Statement × Text :=
  many (Statement.read context) input

end Readers

section Progress

/-- A reader that takes something whenever it succeeds. -/
def Consumes (item : Text → Option (α × Text)) : Prop :=
  ∀ input a rest, item input = some (a, rest) → rest.length < input.length

theorem readWord_eq_some {scan : Text → Nat} {input word rest : Text}
    (h : readWord scan input = some (word, rest)) :
    word = input.trim.take (scan input.trim) ∧ word ≠ [] ∧ input.trim = word ++ rest := by
  simp only [readWord] at h
  split at h
  · cases h
  · next hne =>
    simp only [Option.some.injEq, Prod.mk.injEq] at h
    obtain ⟨rfl, rfl⟩ := h
    exact ⟨rfl, by simpa using hne, (List.prefix_iff_eq_append.mp (List.take_prefix _ _)).symm⟩

theorem consumes_readWord (scan : Text → Nat) : Consumes (readWord scan) := by
  intro input word rest h
  obtain ⟨-, hne, happ⟩ := readWord_eq_some h
  have hlen := Text.length_trim_le input
  have hpos := List.length_pos_iff.mpr hne
  rw [happ, List.length_append] at hlen
  omega

theorem readMark_length {word : String} {input rest : Text} (h : readMark word input = some rest) :
    rest.length < input.length := by
  obtain ⟨⟨w, r⟩, hw, rfl⟩ := Option.map_eq_some_iff.mp h
  exact consumes_readWord _ _ _ _ hw

theorem readWord_literal {word w input rest : Text}
    (h : readWord (Scan.literal word) input = some (w, rest)) : w = word := by
  obtain ⟨hw, hne, happ⟩ := readWord_eq_some h
  unfold Scan.literal at hw
  split at hw
  · next hpre =>
    rw [hw]
    exact (List.prefix_iff_eq_take.mp (List.isPrefixOf_iff_prefix.mp hpre)).symm
  · simp at hw
    exact absurd hw hne

theorem trim_eq_of_readMark {word : String} {input rest : Text}
    (h : readMark word input = some rest) : input.trim = Text.ofString word ++ rest := by
  obtain ⟨⟨w, r⟩, hw, rfl⟩ := Option.map_eq_some_iff.mp h
  rw [(readWord_eq_some hw).2.2, readWord_literal hw]

theorem Numeral.read_eq_some {scan : Text → Nat} {input rest : Text} {n : Numeral}
    (h : Numeral.read scan input = some (n, rest)) :
    readWord scan input = some (n.word, rest) ∧ Decimal.read n.word = .ok n.value := by
  simp only [Numeral.read, Option.bind_eq_bind, Option.bind_eq_some_iff] at h
  obtain ⟨⟨word, r⟩, hword, value, hvalue, h⟩ := h
  cases h
  refine ⟨hword, ?_⟩
  cases hread : Decimal.read word with
  | error e => simp [hread, Except.toOption] at hvalue
  | ok i => simpa [hread, Except.toOption] using hvalue

theorem consumes_numeral (scan : Text → Nat) : Consumes (Numeral.read scan) :=
  fun _ _ _ h => consumes_readWord _ _ _ _ (Numeral.read_eq_some h).1

theorem Address.read_eq_some {input rest : Text} {a : Address}
    (h : Address.read input = some (a, rest)) :
    ∃ middle, readWord (Scan.run Text.isUpper) input = some (a.label, middle) ∧
      Numeral.read (Scan.run Text.isDigit) middle = some (a.number, rest) ∧
      Ref.ofLabel a.label a.number.value = .ok a.ref := by
  simp only [Address.read, Option.bind_eq_bind, Option.bind_eq_some_iff] at h
  obtain ⟨⟨label, middle⟩, hlabel, ⟨number, r⟩, hnumber, ref, href, h⟩ := h
  cases h
  refine ⟨middle, hlabel, hnumber, ?_⟩
  cases hread : Ref.ofLabel label number.value with
  | error e => simp [hread, Except.toOption] at href
  | ok i => simpa [hread, Except.toOption] using href

theorem consumes_address : Consumes Address.read := by
  intro input a rest h
  obtain ⟨middle, hlabel, hnumber, -⟩ := Address.read_eq_some h
  exact (consumes_numeral _ _ _ _ hnumber).trans (consumes_readWord _ _ _ _ hlabel)

theorem Factor.readRelative_eq_some {context : Option Ref} {input rest : Text} {f : Factor}
    (h : Factor.readRelative context input = some (f, rest)) :
    ∃ t₁ rows t₂ t₃ cols origin ref, readMark "r" input = some t₁ ∧
      Numeral.read Scan.signedDigits t₁ = some (rows, t₂) ∧ readMark "c" t₂ = some t₃ ∧
      Numeral.read Scan.signedDigits t₃ = some (cols, rest) ∧ context = some origin ∧
      origin.shift? rows.value cols.value = some ref ∧ f = .relative rows cols ref := by
  simp only [Factor.readRelative, Option.bind_eq_bind, Option.bind_eq_some_iff] at h
  obtain ⟨t₁, h₁, ⟨rows, t₂⟩, h₂, t₃, h₃, ⟨cols, t₄⟩, h₄, origin, h₅, ref, h₆, h⟩ := h
  cases h
  exact ⟨t₁, rows, t₂, t₃, cols, origin, ref, h₁, h₂, h₃, h₄, h₅, h₆, rfl⟩

theorem consumes_readRelative (context : Option Ref) : Consumes (Factor.readRelative context) := by
  intro input f rest h
  obtain ⟨t₁, rows, t₂, t₃, cols, -, -, h₁, h₂, h₃, h₄, -⟩ := Factor.readRelative_eq_some h
  have := readMark_length h₁
  have := consumes_numeral _ _ _ _ h₂
  have := readMark_length h₃
  have := consumes_numeral _ _ _ _ h₄
  omega

theorem Factor.readReference_eq_some {context : Option Ref} {input rest : Text} {f : Factor}
    (h : Factor.readReference context input = some (f, rest)) :
    (∃ a, Address.read input = some (a, rest) ∧ f = .absolute a) ∨
    (∃ rows cols ref, Address.read input = none ∧ f = .relative rows cols ref ∧
      Factor.readRelative context input = some (.relative rows cols ref, rest)) := by
  simp only [Factor.readReference, Option.or_eq_some_iff, Option.map_eq_some_iff] at h
  rcases h with ⟨⟨a, r⟩, ha, h⟩ | ⟨hnone, h⟩
  · cases h
    exact .inl ⟨a, ha, rfl⟩
  · obtain ⟨-, rows, -, -, cols, -, ref, -, -, -, -, -, -, rfl⟩ := Factor.readRelative_eq_some h
    exact .inr ⟨rows, cols, ref, Option.map_eq_none_iff.mp hnone, rfl, h⟩

theorem consumes_readReference (context : Option Ref) :
    Consumes (Factor.readReference context) := by
  intro input f rest h
  simp only [Factor.readReference, Option.or_eq_some_iff, Option.map_eq_some_iff] at h
  rcases h with ⟨⟨a, r⟩, ha, h⟩ | ⟨-, h⟩
  · cases h
    exact consumes_address _ _ _ ha
  · exact consumes_readRelative _ _ _ _ h

theorem consumes_factor (context : Option Ref) : Consumes (Factor.read context) := by
  intro input f rest h
  simp only [Factor.read, Option.or_eq_some_iff, Option.map_eq_some_iff] at h
  rcases h with h | ⟨-, ⟨n, r⟩, hn, h⟩
  · exact consumes_readReference _ _ _ _ h
  · cases h
    exact consumes_numeral _ _ _ _ hn

theorem consumes_following (mark : String) {item : Text → Option (α × Text)} (h : Consumes item) :
    Consumes (following mark item) := by
  intro input a rest hread
  obtain ⟨middle, hmark, hitem⟩ := Option.bind_eq_some_iff.mp hread
  exact (h _ _ _ hitem).trans (readMark_length hmark)

theorem many_none {item : Text → Option (α × Text)} {input : Text} (h : item input = none) :
    many item input = ([], input) := by
  rw [many, h]

theorem many_some {item : Text → Option (α × Text)} (hitem : Consumes item) {input rest : Text}
    {a : α} (h : item input = some (a, rest)) :
    many item input = (a :: (many item rest).1, (many item rest).2) := by
  rw [many, h]
  simp only [if_pos (hitem _ _ _ h)]

/-- Induction along the items that are read. -/
theorem many_induction {item : Text → Option (α × Text)} (hitem : Consumes item)
    {motive : Text → Prop} (stop : ∀ input, item input = none → motive input)
    (step : ∀ input a rest, item input = some (a, rest) → motive rest → motive input)
    (input : Text) : motive input := by
  induction hn : input.length using Nat.strong_induction_on generalizing input with
  | _ n ih =>
    cases h : item input with
    | none => exact stop input h
    | some p => exact step input p.1 p.2 h (ih _ (hn ▸ hitem _ _ _ h) _ rfl)

theorem many_length_le {item : Text → Option (α × Text)} (hitem : Consumes item) (input : Text) :
    (many item input).2.length ≤ input.length := by
  induction input using many_induction hitem with
  | stop input h => rw [many_none h]
  | step input a rest h ih =>
    rw [many_some hitem h]
    exact ih.trans (hitem _ _ _ h).le

/-- Nothing more is read from what is left. -/
theorem many_rest {item : Text → Option (α × Text)} (hitem : Consumes item) (input : Text) :
    many item (many item input).2 = ([], (many item input).2) := by
  induction input using many_induction hitem with
  | stop input h => simp only [many_none h]
  | step input a rest h ih => simpa only [many_some hitem h] using ih

theorem consumes_chain (mark : String) {item : Text → Option (α × Text)} (h : Consumes item) :
    Consumes (Chain.read mark item) := by
  intro input c rest hread
  obtain ⟨⟨a, r⟩, ha, hc⟩ := Option.map_eq_some_iff.mp hread
  cases hc
  exact (many_length_le (consumes_following mark h) r).trans_lt (h _ _ _ ha)

theorem readQuoted_eq_some {input body rest : Text} (h : readQuoted input = some (body, rest)) :
    ∃ middle, readMark "\"" input = some middle ∧
      body = middle.takeWhile (· != Text.byte '"') ∧ body ≠ [] ∧
      readMark "\"" (middle.drop body.length) = some rest := by
  simp only [readQuoted, Option.bind_eq_bind, Option.bind_eq_some_iff] at h
  obtain ⟨middle, hmiddle, h⟩ := h
  split at h
  · cases h
  · next hne =>
    obtain ⟨r, hr, h⟩ := Option.map_eq_some_iff.mp h
    cases h
    exact ⟨middle, hmiddle, rfl, by simpa using hne, hr⟩

theorem consumes_readQuoted : Consumes readQuoted := by
  intro input body rest h
  obtain ⟨middle, hopen, -, -, hclose⟩ := readQuoted_eq_some h
  have h₁ := readMark_length hopen
  have h₂ := readMark_length hclose
  rw [List.length_drop] at h₂
  omega

theorem consumes_expression (context : Option Ref) : Consumes (Expression.read context) := by
  intro input e rest h
  simp only [Expression.read, Option.or_eq_some_iff, Option.map_eq_some_iff] at h
  rcases h with ⟨⟨terms, r⟩, hterms, h⟩ | ⟨-, ⟨body, r⟩, hbody, h⟩
  · cases h
    exact consumes_chain "+" (consumes_chain "*" (consumes_factor context)) _ _ _ hterms
  · cases h
    exact consumes_readQuoted _ _ _ hbody

theorem Statement.readAssignment_eq_some {input rest : Text} {st : Statement}
    (h : Statement.readAssignment input = some (st, rest)) :
    ∃ target t₁ t₂ e, Address.read input = some (target, t₁) ∧ readMark ":=" t₁ = some t₂ ∧
      Expression.read (some target.ref) t₂ = some (e, rest) ∧ st = .assign target e := by
  simp only [Statement.readAssignment, Option.bind_eq_bind, Option.bind_eq_some_iff] at h
  obtain ⟨⟨target, t₁⟩, h₁, t₂, h₂, ⟨e, r⟩, h₃, h⟩ := h
  cases h
  exact ⟨target, t₁, t₂, e, h₁, h₂, h₃, rfl⟩

theorem Statement.readPrint_eq_some {context : Option Ref} {kind : ReportKind} {input rest : Text}
    {st : Statement} (h : Statement.readPrint context kind input = some (st, rest)) :
    ∃ middle e, readMark kind.keyword input = some middle ∧
      Expression.read context middle = some (e, rest) ∧ st = .print kind e := by
  obtain ⟨⟨e, r⟩, he, h⟩ := Option.map_eq_some_iff.mp h
  obtain ⟨middle, hmark, hread⟩ := Option.bind_eq_some_iff.mp he
  cases h
  exact ⟨middle, e, hmark, hread, rfl⟩

theorem Statement.length_readPrint {context : Option Ref} {kind : ReportKind} {input rest : Text}
    {st : Statement} (h : Statement.readPrint context kind input = some (st, rest)) :
    rest.length + 2 ≤ input.length := by
  obtain ⟨middle, e, hmark, hread, -⟩ := Statement.readPrint_eq_some h
  have := readMark_length hmark
  have := consumes_expression _ _ _ _ hread
  omega

/-- A statement takes two bytes or more: it has at least that many words. -/
theorem Statement.length_read {context : Option Ref} {input rest : Text} {st : Statement}
    (h : Statement.read context input = some (st, rest)) : rest.length + 2 ≤ input.length := by
  simp only [Statement.read, Option.or_eq_some_iff] at h
  rcases h with h | ⟨-, h | ⟨-, h⟩⟩
  · obtain ⟨target, t₁, t₂, e, h₁, h₂, h₃, -⟩ := Statement.readAssignment_eq_some h
    have := consumes_address _ _ _ h₁
    have := readMark_length h₂
    have := consumes_expression _ _ _ _ h₃
    omega
  · exact Statement.length_readPrint h
  · exact Statement.length_readPrint h

theorem consumes_statement (context : Option Ref) : Consumes (Statement.read context) := by
  intro input st rest h
  have := Statement.length_read h
  omega

end Progress

end Spreadsheet.Formula
