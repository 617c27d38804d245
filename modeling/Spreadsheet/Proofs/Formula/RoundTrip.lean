import Spreadsheet.Proofs.Formula.Writing

/-! # Reading what was written

Each reader gives a valid syntax back from its words, whatever blanks are before them, if the next
word cannot continue it: a numeral must not be followed by a digit, a term not by `*` and an
expression not by `+`. No statement begins with any of these, so statements may follow each other
without a blank.
-/
namespace Spreadsheet.Formula

variable {α : Type}

/-- A reader gives back every item that is `ok`, written as `spell` says and before a word that
begins with a byte of `next`. -/
def Completes (item : Text → Option (α × Text)) (spell : α → List Text) (ok : α → Prop)
    (next : UInt8 → Prop) : Prop :=
  ∀ ⦃a : α⦄ ⦃ws : List Text⦄ ⦃t : Text⦄, ok a → Begins next ws → Written (spell a ++ ws) t →
    ∃ rest, item t = some (a, rest) ∧ Written ws rest

section Factors

variable {context : Option Ref} {n : Numeral} {ws : List Text} {t : Text}

theorem Numeral.read_of_readWord {scan : Text → Nat} {isWord : Text → Prop} {rest : Text}
    (hn : n.Valid isWord) (h : readWord scan t = some (n.word, rest)) :
    Numeral.read scan t = some (n, rest) := by
  simp [Numeral.read, h, hn.2, Except.toOption]

theorem numeral_completes_run : Completes (Numeral.read (Scan.run Text.isDigit)) (fun n => [n.word])
    (Numeral.Valid (IsRun Text.isDigit)) fun b => Text.isDigit b = false := by
  intro n ws t hn hnext h
  obtain ⟨rest, hread, hrest⟩ := readWord_run hn.1 isVisible_of_isDigit hnext h
  exact ⟨rest, Numeral.read_of_readWord hn hread, hrest⟩

theorem numeral_completes_signed : Completes (Numeral.read Scan.signedDigits) (fun n => [n.word])
    (Numeral.Valid IsSigned) fun b => Text.isDigit b = false := by
  intro n ws t hn hnext h
  obtain ⟨rest, hread, hrest⟩ := readWord_signed hn.1 hnext h
  exact ⟨rest, Numeral.read_of_readWord hn hread, hrest⟩

theorem address_completes : Completes Address.read Address.words Address.Valid
    fun b => Text.isDigit b = false := by
  intro a ws t ha hnext h
  have hnumber : Begins (fun b => Text.isUpper b = false) (a.number.word :: ws) :=
    ha.2.1.1.begins fun b hb => isUpper_of_isDigit hb
  obtain ⟨t₁, hlabel, h₁⟩ := readWord_run ha.1 isVisible_of_isUpper hnumber h
  obtain ⟨rest, hread, hrest⟩ := numeral_completes_run ha.2.1 hnext h₁
  refine ⟨rest, ?_, hrest⟩
  simp [Address.read, hlabel, hread, ha.2.2, Except.toOption]

theorem address_read_none (h : Opens (fun b => Text.isUpper b = false) t) :
    Address.read t = none := by
  simp [Address.read, readWord_run_none h]

def Factor.IsReference : Factor → Prop
  | .integer _ => False
  | _ => True

/-- The words of a relative reference are read in every context, and the context says to which
cell. -/
theorem readRelative_written (context : Option Ref) {rows cols : Numeral}
    (hrows : rows.Valid IsSigned) (hcols : cols.Valid IsSigned)
    (hnext : Begins (fun b => Text.isDigit b = false) ws)
    (h : Written (Text.ofString "r" :: rows.word :: Text.ofString "c" :: cols.word :: ws) t) :
    ∃ rest, Factor.readRelative context t =
        (context.bind fun o => o.shift? rows.value cols.value).map
          (fun r => (.relative rows cols r, rest)) ∧ Written ws rest := by
  obtain ⟨t₁, hrow, h₁⟩ := readMark_written h
  have hmark : Begins (fun b => Text.isDigit b = false) (Text.ofString "c" :: cols.word :: ws) :=
    begins_of_head rfl (by decide)
  obtain ⟨t₂, hrowsRead, h₂⟩ := numeral_completes_signed hrows hmark h₁
  obtain ⟨t₃, hcol, h₃⟩ := readMark_written h₂
  obtain ⟨rest, hcolsRead, hrest⟩ := numeral_completes_signed hcols hnext h₃
  refine ⟨rest, ?_, hrest⟩
  cases context with
  | none => simp [Factor.readRelative, hrow]
  | some origin =>
    cases hshift : origin.shift? rows.value cols.value <;>
      simp [Factor.readRelative, hrow, hrowsRead, hcol, hcolsRead, hshift]

theorem reference_completes (context : Option Ref) : Completes (Factor.readReference context)
    Factor.words (fun f => f.Valid context ∧ f.IsReference) fun b => Text.isDigit b = false := by
  rintro f ws t ⟨hf, href⟩ hnext h
  cases f with
  | absolute a =>
    obtain ⟨rest, hread, hrest⟩ := address_completes hf hnext h
    exact ⟨rest, by simp [Factor.readReference, hread], hrest⟩
  | relative rows cols r =>
    obtain ⟨hrows, hcols, origin, rfl, hshift⟩ := hf
    have hnone : Address.read t = none := address_read_none (h.opens (begins_of_head rfl (by decide)))
    obtain ⟨rest, hread, hrest⟩ := readRelative_written (some origin) hrows hcols hnext h
    refine ⟨rest, ?_, hrest⟩
    simp [Factor.readReference, hnone, hread, hshift]
  | integer n => exact href.elim

theorem readReference_none (h : Opens (fun b => Text.isUpper b = false ∧ b ≠ Text.byte 'r') t) :
    Factor.readReference context t = none := by
  have haddress := address_read_none (h.mono fun b hb => hb.1)
  have hrow : readMark "r" t = none :=
    readMark_none (h.mono fun b hb heq => hb.2 (Option.some.inj heq).symm) (by decide)
  simp [Factor.readReference, Factor.readRelative, haddress, hrow]

theorem factor_completes (context : Option Ref) : Completes (Factor.read context) Factor.words
    (Factor.Valid context) fun b => Text.isDigit b = false := by
  intro f ws t hf hnext h
  cases f with
  | absolute a =>
    obtain ⟨rest, hread, hrest⟩ := reference_completes context ⟨hf, trivial⟩ hnext h
    exact ⟨rest, by simp [Factor.read, hread], hrest⟩
  | relative rows cols r =>
    obtain ⟨rest, hread, hrest⟩ := reference_completes context ⟨hf, trivial⟩ hnext h
    exact ⟨rest, by simp [Factor.read, hread], hrest⟩
  | integer n =>
    have hnone : Factor.readReference context t = none := by
      refine readReference_none (h.opens (hf.1.begins (fun b hb => ?_) (by decide)))
      exact ⟨isUpper_of_isDigit hb, ne_of_class hb (by decide)⟩
    obtain ⟨rest, hread, hrest⟩ := numeral_completes_signed hf hnext h
    exact ⟨rest, by simp [Factor.read, hnone, hread], hrest⟩

theorem factor_read_none (h : Opens (fun b => Text.isUpper b = false ∧ b ≠ Text.byte 'r' ∧
    Text.isDigit b = false ∧ b ≠ Text.byte '-') t) : Factor.read context t = none := by
  have href : Factor.readReference context t = none :=
    readReference_none (h.mono fun b hb => ⟨hb.1, hb.2.1⟩)
  have hnumber := readWord_signed_none (h.mono fun b hb => hb.2.2)
  simp [Factor.read, href, Numeral.read, hnumber]

end Factors

section Chains

variable {mark : String} {item : Text → Option (α × Text)} {spell : α → List Text} {ok : α → Prop}
  {next : UInt8 → Prop} {m : UInt8}

/-- What comes after one more item: the mark, or what comes after them all. -/
theorem begins_flatMap {as : List α} {ws : List Text} (hm : (Text.ofString mark).head? = some m)
    (hnext : next m) (hws : Begins next ws) :
    Begins next (as.flatMap (fun a => Text.ofString mark :: spell a) ++ ws) := by
  cases as with
  | nil => exact hws
  | cons a as => exact begins_of_head hm hnext

theorem many_completes (hconsumes : Consumes item) (hitem : Completes item spell ok next)
    (hm : (Text.ofString mark).head? = some m) (hnext : next m) {as : List α} {ws : List Text}
    {t : Text} (has : ∀ a ∈ as, ok a) (hws : Begins (fun b => next b ∧ b ≠ m) ws)
    (h : Written (as.flatMap (fun a => Text.ofString mark :: spell a) ++ ws) t) :
    ∃ rest, many (following mark item) t = (as, rest) ∧ Written ws rest := by
  induction as generalizing t with
  | nil =>
    have hne : Text.ofString mark ≠ [] := by
      intro hnil
      rw [hnil] at hm
      cases hm
    have hstop : readMark mark t = none := by
      refine readMark_none ((h.opens hws).mono fun b hb heq => hb.2 ?_) hne
      rw [hm] at heq
      exact (Option.some.inj heq).symm
    exact ⟨t, many_none (by rw [following, hstop]; rfl), h⟩
  | cons a as ih =>
    rw [List.flatMap_cons, List.append_assoc] at h
    obtain ⟨t₁, hmark, h₁⟩ := readMark_written h
    obtain ⟨t₂, hread, h₂⟩ := hitem (has a List.mem_cons_self)
      (begins_flatMap hm hnext (hws.mono fun b hb => hb.1)) h₁
    obtain ⟨rest, hmany, hrest⟩ := ih (fun x hx => has x (List.mem_cons_of_mem a hx)) h₂
    refine ⟨rest, ?_, hrest⟩
    rw [many_some (consumes_following mark hconsumes) (by rw [following, hmark]; exact hread), hmany]

theorem chain_completes (hconsumes : Consumes item) (hitem : Completes item spell ok next)
    (hm : (Text.ofString mark).head? = some m) (hnext : next m) :
    Completes (Chain.read mark item) (Chain.words (Text.ofString mark) spell)
      (fun c => ∀ a ∈ c.toList, ok a) fun b => next b ∧ b ≠ m := by
  intro c ws t hc hws h
  rw [Chain.words, List.append_assoc] at h
  obtain ⟨t₁, hread, h₁⟩ := hitem (hc c.head (by simp [Chain.toList]))
    (begins_flatMap hm hnext (hws.mono fun b hb => hb.1)) h
  obtain ⟨rest, hmany, hrest⟩ := many_completes hconsumes hitem hm hnext
    (fun a ha => hc a (by simp [Chain.toList, ha])) hws h₁
  exact ⟨rest, by simp [Chain.read, hread, hmany], hrest⟩

end Chains

section Expressions

variable {context : Option Ref} {ws : List Text} {t : Text}

def EndsExpression (b : UInt8) : Prop :=
  (Text.isDigit b = false ∧ b ≠ Text.byte '*') ∧ b ≠ Text.byte '+'

theorem readQuoted_of_marks {body r rest : Text} (hbody : IsRun (· != Text.byte '"') body)
    (hopen : readMark "\"" t = some (body ++ Text.byte '"' :: r))
    (hclose : readMark "\"" (Text.byte '"' :: r) = some rest) :
    readQuoted t = some (body, rest) := by
  have hstop : (body ++ Text.byte '"' :: r).takeWhile (· != Text.byte '"') = body := by
    rw [List.takeWhile_append_of_pos hbody.2]
    simp
  have hne : body.isEmpty = false := by
    rw [Bool.eq_false_iff, ne_eq, List.isEmpty_iff]
    exact hbody.1
  simp only [readQuoted, hopen, Option.bind_eq_bind, Option.bind_some, hstop, hne,
    Bool.false_eq_true, if_false, List.drop_left', hclose, Option.map_some]

theorem readQuoted_written {body : Text} (hbody : IsRun (· != Text.byte '"') body)
    (h : Written (quote body :: ws) t) :
    ∃ rest, readQuoted t = some (body, rest) ∧ Written ws rest := by
  obtain ⟨rest, htrim, hrest⟩ := h.exists_trim_eq
  have hopen : readMark "\"" t = some (body ++ Text.byte '"' :: rest) := by
    refine readMark_of_trim ?_ (by decide)
    rw [htrim, quote, List.cons_append, List.append_assoc]
    rfl
  have hclosing : Written (Text.ofString "\"" :: ws) (Text.byte '"' :: rest) := by
    refine ⟨@Spaced.cons [] _ _ _ (by simp) hrest.1, fun w hw => ?_⟩
    rcases List.mem_cons.mp hw with rfl | hw
    · exact isToken_byte (by decide)
    · exact hrest.2 w hw
  obtain ⟨rest', hclose, hrest'⟩ := readMark_written hclosing
  exact ⟨rest', readQuoted_of_marks hbody hopen hclose, hrest'⟩

theorem expression_completes (context : Option Ref) : Completes (Expression.read context)
    (Expression.words Factor.words) (Expression.Valid context) EndsExpression := by
  intro e ws t he hws h
  cases e with
  | sum terms =>
    have hterm := chain_completes (consumes_factor context) (factor_completes context)
      (show (Text.ofString "*").head? = some (Text.byte '*') from rfl) (by decide)
    have hsum := chain_completes (consumes_chain "*" (consumes_factor context)) hterm
      (show (Text.ofString "+").head? = some (Text.byte '+') from rfl) (by decide)
    obtain ⟨rest, hread, hrest⟩ := hsum he hws h
    exact ⟨rest, by simp [Expression.read, hread], hrest⟩
  | quoted body =>
    have hnone : Factor.read context t = none :=
      factor_read_none (h.opens (begins_of_head rfl (by decide)))
    obtain ⟨rest, hread, hrest⟩ := readQuoted_written he h
    exact ⟨rest, by simp [Expression.read, Chain.read, hnone, hread], hrest⟩

theorem Statement.readAssignment_none (h : Opens (fun b => Text.isUpper b = false) t) :
    Statement.readAssignment t = none := by
  simp [Statement.readAssignment, address_read_none h]

/-- The two kinds of print statements have different words. -/
theorem readMark_value_none {rest : Text}
    (htrim : t.trim = Text.ofString ReportKind.expression.keyword ++ rest) :
    readMark ReportKind.value.keyword t = none := by
  have hnot : (Text.ofString ReportKind.value.keyword).isPrefixOf
      (Text.ofString ReportKind.expression.keyword ++ rest) = false := rfl
  simp [readMark, readWord, htrim, Scan.literal, hnot]

theorem statement_completes (context : Option Ref) : Completes (Statement.read context)
    Statement.words (Statement.Valid context) EndsExpression := by
  intro st ws t hst hws h
  cases st with
  | assign target e =>
    rw [Statement.words, List.append_assoc] at h
    obtain ⟨t₁, htarget, h₁⟩ := address_completes hst.1 (begins_of_head rfl (by decide)) h
    obtain ⟨t₂, hmark, h₂⟩ := readMark_written h₁
    obtain ⟨rest, hread, hrest⟩ := expression_completes (some target.ref) hst.2 hws h₂
    refine ⟨rest, ?_, hrest⟩
    simp [Statement.read, Statement.readAssignment, htarget, hmark, hread]
  | print kind e =>
    obtain ⟨t₁, hmark, h₁⟩ := readMark_written h
    obtain ⟨rest, hread, hrest⟩ := expression_completes context hst hws h₁
    refine ⟨rest, ?_, hrest⟩
    cases kind with
    | value =>
      have hnone := Statement.readAssignment_none (h.opens (begins_of_head rfl (by decide)))
      simp [Statement.read, Statement.readPrint, following, hnone, hmark, hread]
    | expression =>
      have hnone := Statement.readAssignment_none (h.opens (begins_of_head rfl (by decide)))
      obtain ⟨rest, htrim, -⟩ := h.exists_trim_eq
      have hother := readMark_value_none htrim
      simp [Statement.read, Statement.readPrint, following, hnone, hother, hmark, hread]

end Expressions

section Programs

variable {context : Option Ref} {ws : List Text} {t : Text}

theorem Statement.begins_words {st : Statement} (hst : st.Valid context) :
    Begins EndsExpression (st.words ++ ws) := by
  cases st with
  | assign target e =>
    refine hst.1.1.begins fun b hb => ⟨⟨isDigit_of_isUpper hb, ?_⟩, ?_⟩
    · exact ne_of_class hb (by decide)
    · exact ne_of_class hb (by decide)
  | print kind e =>
    cases kind with
    | value => exact begins_of_head rfl (by unfold EndsExpression; decide)
    | expression => exact begins_of_head rfl (by unfold EndsExpression; decide)

theorem begins_statements {sts : List Statement} (hsts : ∀ st ∈ sts, st.Valid context) :
    Begins EndsExpression (sts.flatMap Statement.words) := by
  cases sts with
  | nil => exact begins_nil
  | cons st sts => exact Statement.begins_words (hsts st List.mem_cons_self)

theorem opens_nil {p : UInt8 → Prop} : Opens p [] := by
  intro b hb
  cases hb

theorem Statement.read_nil (context : Option Ref) : Statement.read context [] = none := by
  have hassign := Statement.readAssignment_none opens_nil
  have hvalue : readMark ReportKind.value.keyword [] = none := readMark_none opens_nil (by decide)
  have hexpr : readMark ReportKind.expression.keyword [] = none :=
    readMark_none opens_nil (by decide)
  simp [Statement.read, Statement.readPrint, following, hassign, hvalue, hexpr]

/-- A program that is written down reads as itself, to the end. -/
theorem readProgram_written {sts : List Statement} (hsts : ∀ st ∈ sts, st.Valid context)
    (h : Written (sts.flatMap Statement.words) t) : readProgram context t = (sts, []) := by
  induction sts generalizing t with
  | nil =>
    rw [h.nil_eq]
    exact many_none (Statement.read_nil context)
  | cons st sts ih =>
    have htail : ∀ st ∈ sts, st.Valid context := fun x hx => hsts x (List.mem_cons_of_mem st hx)
    obtain ⟨rest, hread, hrest⟩ := statement_completes context (hsts st List.mem_cons_self)
      (begins_statements htail) h
    have hmany : many (Statement.read context) rest = (sts, []) := ih htail hrest
    rw [readProgram, many_some (consumes_statement context) hread, hmany]

theorem written_flatten (h : ∀ w ∈ ws, IsToken w) : Written ws ws.flatten := ⟨.flatten ws, h⟩

/-- The text of an expression reads as the expression, to the end. -/
theorem Expression.read_text {e : Expression Factor} (he : e.Valid context) :
    Expression.read context e.text = some (e, []) := by
  have hwritten := written_flatten (Expression.isToken_words he)
  rw [← List.append_nil (e.words Factor.words)] at hwritten
  obtain ⟨rest, hread, hrest⟩ := expression_completes context he begins_nil hwritten
  rw [hrest.nil_eq, List.append_nil] at hread
  exact hread

end Programs

end Spreadsheet.Formula
