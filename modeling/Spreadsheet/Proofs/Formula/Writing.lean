import Spreadsheet.Proofs.Formula.Validity
import Spreadsheet.Proofs.Text.Gap

/-! # Writing formulas

A syntax is written as its words with blanks before each. Reading a written syntax gives it back and
leaves the words after it, provided that the next word cannot be taken for a continuation.
-/
namespace Spreadsheet

namespace Formula

/-- Words one after the other, each with blanks before it or none. -/
inductive Spaced : List Text → Text → Prop
  | nil : Spaced [] []
  | cons {gap : List Glyph} {w : Text} {ws : List Text} {t : Text} (hgap : ∀ g ∈ gap, g.isBlank)
      (h : Spaced ws t) : Spaced (w :: ws) (gap.flatMap Glyph.bytes ++ (w ++ t))

theorem Spaced.exists_of_append {ws ws' : List Text} {t : Text}
    (h : Spaced (ws ++ ws') t) :
    ∃ t₁ t₂, t = t₁ ++ t₂ ∧ Spaced ws t₁ ∧ Spaced ws' t₂ := by
  induction ws generalizing t with
  | nil => exact ⟨[], t, rfl, .nil, h⟩
  | cons w ws ih =>
    cases h with
    | cons hgap h =>
      obtain ⟨t₁, t₂, rfl, h₁, h₂⟩ := ih h
      refine ⟨_, t₂, ?_, .cons hgap h₁, h₂⟩
      simp

theorem Spaced.of_gaps (gaps : List (List Glyph × Text))
    (h : ∀ p ∈ gaps, ∀ g ∈ p.1, g.isBlank) :
    Spaced (gaps.map (·.2)) (gaps.flatMap fun p => p.1.flatMap Glyph.bytes ++ p.2) := by
  induction gaps with
  | nil => exact .nil
  | cons p gaps ih =>
    have hspaced := ih fun q hq => h q (List.mem_cons_of_mem p hq)
    rw [List.map_cons, List.flatMap_cons, List.append_assoc]
    exact .cons (h p List.mem_cons_self) hspaced

/-- Words need no blanks between them. -/
theorem Spaced.flatten (ws : List Text) : Spaced ws ws.flatten := by
  induction ws with
  | nil => exact .nil
  | cons w ws ih => exact @Spaced.cons [] w ws _ (by simp) ih

/-- A word that trimming leaves as it is. -/
structure IsToken (w : Text) : Prop where
  head : ∃ b r, w = b :: r ∧ Text.isVisible b
  closed : Text.Closed w

/-- Tokens one after the other, with blanks before them. -/
def Written (ws : List Text) (t : Text) : Prop := Spaced ws t ∧ ∀ w ∈ ws, IsToken w

/-- The first byte after blanks, if there is one, has the property. -/
def Opens (p : UInt8 → Prop) (t : Text) : Prop := ∀ b ∈ t.trim.head?, p b

theorem Opens.mono {p q : UInt8 → Prop} {t : Text} (h : Opens p t) (hpq : ∀ b, p b → q b) :
    Opens q t :=
  fun b hb => hpq b (h b hb)

/-- The first byte of the first word, if there is one, has the property. -/
def Begins (p : UInt8 → Prop) (ws : List Text) : Prop := ∀ w ∈ ws.head?, ∀ b ∈ w.head?, p b

section Written

variable {p : UInt8 → Prop} {w t : Text} {ws : List Text}

theorem Begins.mono {q : UInt8 → Prop} (h : Begins p ws) (hpq : ∀ b, p b → q b) : Begins q ws :=
  fun w hw b hb => hpq b (h w hw b hb)

theorem begins_nil : Begins p [] := by simp [Begins]

theorem Written.nil_eq (h : Written [] t) : t = [] := by
  cases h.1
  rfl

theorem Written.closed (h : Written ws t) : Text.Closed t := by
  obtain ⟨hspaced, htokens⟩ := h
  induction hspaced with
  | nil => exact Text.closed_nil
  | cons hgap h ih =>
    have hw : IsToken _ := htokens _ List.mem_cons_self
    have ht := ih fun v hv => htokens v (List.mem_cons_of_mem _ hv)
    refine (ht.append fun _ => hw.closed).append fun hnil => ?_
    obtain ⟨b, r, rfl, -⟩ := hw.head
    cases hnil

/-- Trimming brings the first word to the front. -/
theorem Written.exists_trim_eq (h : Written (w :: ws) t) :
    ∃ rest, t.trim = w ++ rest ∧ Written ws rest := by
  have hclosed := h.closed
  obtain ⟨hspaced, htokens⟩ := h
  cases hspaced with
  | @cons gap _ _ rest hgap h =>
    obtain ⟨b, r, rfl, hb⟩ := (htokens w List.mem_cons_self).head
    refine ⟨rest, ?_, h, fun v hv => htokens v (List.mem_cons_of_mem _ hv)⟩
    refine Text.trim_blank_append (Text.IsGap.isBlank ⟨gap, hgap, rfl⟩) hclosed.of_append ?_
    intro x hx
    cases hx
    exact hb

theorem Written.opens (h : Written ws t) (hp : Begins p ws) : Opens p t := by
  cases ws with
  | nil =>
    rw [h.nil_eq]
    intro b hb
    cases hb
  | cons w ws =>
    obtain ⟨b, r, hw, -⟩ := (h.2 w List.mem_cons_self).head
    obtain ⟨rest, htrim, -⟩ := h.exists_trim_eq
    intro x hx
    rw [htrim, hw] at hx
    exact hp w rfl x (by rw [hw]; exact hx)

/-- What stands right after a word, blank or not, is not of a class of visible bytes if the next
word does not begin with one. -/
theorem Written.head_ne {q : UInt8 → Bool} (h : Written ws t) (hp : Begins (fun b => q b = false) ws)
    (hq : ∀ b, q b → Text.isVisible b) : ∀ b ∈ t.head?, q b = false := by
  intro b hb
  by_contra hne
  have hvisible := hq b (by simpa using hne)
  obtain ⟨r, rfl⟩ : ∃ r, t = b :: r := by
    cases t with
    | nil => cases hb
    | cons x r => cases hb; exact ⟨r, rfl⟩
  have htrim : Text.trim (b :: r) = b :: r := by
    rw [Text.trim, Text.trimStart_visible hvisible, h.closed.trimEnd_eq]
  exact hne (h.opens hp b (by rw [htrim]; rfl))

end Written

section Words

variable {p : UInt8 → Bool} {word : String} {w t : Text} {ws : List Text}

theorem readWord_of_trim {scan : Text → Nat} {rest : Text} (hw : IsToken w)
    (h : t.trim = w ++ rest) (hscan : scan (w ++ rest) = w.length) :
    readWord scan t = some (w, rest) := by
  obtain ⟨b, r, rfl, -⟩ := hw.head
  simp only [readWord, h, hscan]
  simp

theorem readWord_written {scan : Text → Nat} (h : Written (w :: ws) t)
    (hscan : ∀ rest, Written ws rest → scan (w ++ rest) = w.length) :
    ∃ rest, readWord scan t = some (w, rest) ∧ Written ws rest := by
  obtain ⟨rest, htrim, hrest⟩ := h.exists_trim_eq
  exact ⟨rest, readWord_of_trim (h.2 w List.mem_cons_self) htrim (hscan rest hrest), hrest⟩

theorem readMark_of_trim {rest : Text} (h : t.trim = Text.ofString word ++ rest)
    (hword : Text.ofString word ≠ []) : readMark word t = some rest := by
  have hprefix : (Text.ofString word).isPrefixOf (Text.ofString word ++ rest) :=
    List.isPrefixOf_iff_prefix.mpr (List.prefix_append _ _)
  simp only [readMark, readWord, h, Scan.literal, hprefix, if_true, List.take_left',
    List.isEmpty_iff, hword, if_false, Option.map_some, List.drop_left']

theorem readMark_written (h : Written (Text.ofString word :: ws) t) :
    ∃ rest, readMark word t = some rest ∧ Written ws rest := by
  obtain ⟨rest, htrim, hrest⟩ := h.exists_trim_eq
  obtain ⟨b, r, hword, -⟩ := (h.2 _ List.mem_cons_self).head
  exact ⟨rest, readMark_of_trim htrim (by simp [hword]), hrest⟩

theorem run_append {rest : Text} (hw : ∀ b ∈ w, p b) (hrest : ∀ b ∈ rest.head?, p b = false) :
    Scan.run p (w ++ rest) = w.length := by
  have hnil : rest.takeWhile p = [] := by
    cases rest with
    | nil => rfl
    | cons b r => simp [hrest b rfl]
  rw [Scan.run, List.takeWhile_append_of_pos hw, hnil, List.append_nil]

theorem readWord_run (hw : IsRun p w) (hp : ∀ b, p b → Text.isVisible b)
    (hnext : Begins (fun b => p b = false) ws) (h : Written (w :: ws) t) :
    ∃ rest, readWord (Scan.run p) t = some (w, rest) ∧ Written ws rest :=
  readWord_written h fun _ hrest => run_append hw.2 (hrest.head_ne hnext hp)

theorem isVisible_of_isDigit (b : UInt8) (hb : Text.isDigit b) : Text.isVisible b := by
  simp only [Text.isDigit, Text.isVisible, Bool.and_eq_true, decide_eq_true_eq] at hb ⊢
  exact ⟨UInt8.le_trans (by decide) hb.1, UInt8.le_trans hb.2 (by decide)⟩

theorem isVisible_of_isUpper (b : UInt8) (hb : Text.isUpper b) : Text.isVisible b := by
  simp only [Text.isUpper, Text.isVisible, Bool.and_eq_true, decide_eq_true_eq] at hb ⊢
  exact ⟨UInt8.le_trans (by decide) hb.1, UInt8.le_trans hb.2 (by decide)⟩

theorem signedDigits_append {rest : Text} (hw : IsSigned w)
    (hrest : ∀ b ∈ rest.head?, Text.isDigit b = false) :
    Scan.signedDigits (w ++ rest) = w.length := by
  rcases hw with ⟨hne, hdigits⟩ | ⟨ds, rfl, hne, hdigits⟩
  · obtain ⟨b, r, rfl⟩ := List.exists_cons_of_ne_nil hne
    have hb : b ≠ Text.byte '-' := by
      rintro rfl
      exact absurd (hdigits _ List.mem_cons_self) (by decide)
    rw [List.cons_append, Scan.signedDigits, if_neg hb]
    exact run_append hdigits hrest
  · rw [List.cons_append, Scan.signedDigits, if_pos rfl, run_append hdigits hrest]
    obtain ⟨b, r, rfl⟩ := List.exists_cons_of_ne_nil hne
    rfl

theorem readWord_signed (hw : IsSigned w) (hnext : Begins (fun b => Text.isDigit b = false) ws)
    (h : Written (w :: ws) t) :
    ∃ rest, readWord Scan.signedDigits t = some (w, rest) ∧ Written ws rest :=
  readWord_written h fun _ hrest =>
    signedDigits_append hw (hrest.head_ne hnext isVisible_of_isDigit)

theorem readWord_run_none (hp : Opens (fun b => p b = false) t) :
    readWord (Scan.run p) t = none := by
  have hnil : t.trim.takeWhile p = [] := by
    cases htrim : t.trim with
    | nil => rfl
    | cons b r => simp [hp b (by rw [htrim]; rfl)]
  simp [readWord, take_run, hnil]

theorem readWord_signed_none (hp : Opens (fun b => Text.isDigit b = false ∧ b ≠ Text.byte '-') t) :
    readWord Scan.signedDigits t = none := by
  cases htrim : t.trim with
  | nil => simp [readWord, htrim]
  | cons b r =>
    obtain ⟨hdigit, hminus⟩ := hp b (by rw [htrim]; rfl)
    simp [readWord, htrim, Scan.signedDigits, Scan.run, hdigit, hminus]

theorem readMark_none (hp : Opens (fun b => (Text.ofString word).head? ≠ some b) t)
    (hword : Text.ofString word ≠ []) : readMark word t = none := by
  have hnot : ¬ (Text.ofString word).isPrefixOf t.trim := by
    rw [List.isPrefixOf_iff_prefix]
    rintro ⟨rest, htrim⟩
    obtain ⟨m, v, hm⟩ := List.exists_cons_of_ne_nil hword
    rw [hm] at htrim
    exact hp m (by rw [← htrim]; rfl) (by rw [hm]; rfl)
  simp [readMark, readWord, Scan.literal, hnot]

end Words

section Classes

variable {p q : UInt8 → Bool} {r : UInt8 → Prop} {w : Text} {ws : List Text} {b : UInt8}

theorem begins_of_head (h : w.head? = some b) (hb : r b) : Begins r (w :: ws) := by
  intro v hv x hx
  cases hv
  rw [h] at hx
  cases hx
  exact hb

theorem IsRun.begins (hw : IsRun q w) (h : ∀ b, q b → r b) : Begins r (w :: ws) := by
  obtain ⟨b, v, rfl⟩ := List.exists_cons_of_ne_nil hw.1
  exact begins_of_head rfl (h b (hw.2 b List.mem_cons_self))

theorem IsSigned.begins (hw : IsSigned w) (hdigit : ∀ b, Text.isDigit b → r b)
    (hminus : r (Text.byte '-')) : Begins r (w :: ws) := by
  rcases hw with hrun | ⟨ds, rfl, -⟩
  · exact hrun.begins hdigit
  · exact begins_of_head rfl hminus

theorem isUpper_of_isDigit (hb : Text.isDigit b) : Text.isUpper b = false := by
  by_contra h
  simp only [Text.isDigit, Text.isUpper, Bool.not_eq_false, Bool.and_eq_true,
    decide_eq_true_eq] at hb h
  exact absurd (UInt8.le_trans h.1 hb.2) (by decide)

theorem isDigit_of_isUpper (hb : Text.isUpper b) : Text.isDigit b = false := by
  by_contra h
  rw [isUpper_of_isDigit (by simpa using h)] at hb
  cases hb

theorem ne_of_class {c : UInt8} (hb : p b) (hc : p c = false) : b ≠ c := by
  rintro rfl
  rw [hb] at hc
  cases hc

theorem IsRun.isToken (hw : IsRun p w) (hp : ∀ b, p b → Text.isVisible b) : IsToken w := by
  obtain ⟨b, v, rfl⟩ := List.exists_cons_of_ne_nil hw.1
  refine ⟨⟨b, v, rfl, hp b (hw.2 b List.mem_cons_self)⟩, fun x hx => hp x (hw.2 x ?_)⟩
  exact List.mem_of_getLast? hx

theorem IsSigned.isToken (hw : IsSigned w) : IsToken w := by
  rcases hw with hrun | ⟨ds, rfl, hds⟩
  · exact hrun.isToken isVisible_of_isDigit
  · refine ⟨⟨_, ds, rfl, by decide⟩, ?_⟩
    change Text.Closed ([Text.byte '-'] ++ ds)
    exact (hds.isToken isVisible_of_isDigit).closed.append fun h => absurd h hds.1

theorem isToken_byte (hb : Text.isVisible b) : IsToken [b] :=
  ⟨⟨b, [], rfl, hb⟩, by simpa [Text.Closed] using hb⟩

theorem isToken_quote (body : Text) : IsToken (quote body) := by
  refine ⟨⟨_, _, rfl, by decide⟩, ?_⟩
  change Text.Closed ((Text.byte '"' :: body) ++ [Text.byte '"'])
  exact (isToken_byte (by decide)).closed.append fun h => absurd h (List.cons_ne_nil _ _)

theorem Address.isToken_words {a : Address} (ha : a.Valid) : ∀ w ∈ a.words, IsToken w := by
  simp only [Address.words, List.mem_cons, List.not_mem_nil, or_false, forall_eq_or_imp, forall_eq]
  exact ⟨ha.1.isToken isVisible_of_isUpper, ha.2.1.1.isToken isVisible_of_isDigit⟩

theorem Factor.isToken_words {context : Option Ref} {f : Factor} (hf : f.Valid context) :
    ∀ w ∈ f.words, IsToken w := by
  cases f with
  | absolute a => exact Address.isToken_words hf
  | relative rows cols ref =>
    simp only [Factor.words, List.mem_cons, List.not_mem_nil, or_false, forall_eq_or_imp, forall_eq]
    exact ⟨isToken_byte (by decide), hf.1.1.isToken, isToken_byte (by decide), hf.2.1.1.isToken⟩
  | integer n =>
    simp only [Factor.words, List.mem_singleton, forall_eq]
    exact hf.1.isToken

theorem Chain.forall_words {α : Type} {P : Text → Prop} {c : Chain α} {mark : Text}
    {spell : α → List Text} (hmark : P mark) (hc : ∀ a ∈ c.toList, ∀ w ∈ spell a, P w) :
    ∀ w ∈ c.words mark spell, P w := by
  intro w hw
  rcases List.mem_append.mp hw with hw | hw
  · exact hc c.head (by simp [Chain.toList]) w hw
  · obtain ⟨a, ha, hw⟩ := List.mem_flatMap.mp hw
    rcases List.mem_cons.mp hw with rfl | hw
    · exact hmark
    · exact hc a (by simp [Chain.toList, ha]) w hw

theorem Expression.isToken_words {context : Option Ref} {e : Expression Factor}
    (he : e.Valid context) : ∀ w ∈ e.words Factor.words, IsToken w := by
  cases e with
  | sum terms =>
    exact Chain.forall_words (isToken_byte (by decide)) fun c hc =>
      Chain.forall_words (isToken_byte (by decide)) fun f hf => Factor.isToken_words (he c hc f hf)
  | quoted body =>
    intro w hw
    rw [List.mem_singleton.mp hw]
    exact isToken_quote body

theorem isToken_assign : IsToken (Text.ofString ":=") :=
  IsRun.isToken ⟨by decide, by decide +kernel⟩ fun _ hb => hb

theorem isToken_keyword (kind : ReportKind) : IsToken (Text.ofString kind.keyword) := by
  cases kind with
  | value => exact IsRun.isToken ⟨by decide, by decide +kernel⟩ fun _ hb => hb
  | expression => exact IsRun.isToken ⟨by decide, by decide +kernel⟩ fun _ hb => hb

theorem Statement.isToken_words {context : Option Ref} {st : Statement} (hst : st.Valid context) :
    ∀ w ∈ st.words, IsToken w := by
  intro w hw
  cases st with
  | assign target e =>
    rcases List.mem_append.mp hw with hw | hw
    · exact Address.isToken_words hst.1 w hw
    · rcases List.mem_cons.mp hw with rfl | hw
      · exact isToken_assign
      · exact Expression.isToken_words hst.2 w hw
  | print kind e =>
    rcases List.mem_cons.mp hw with rfl | hw
    · exact isToken_keyword kind
    · exact Expression.isToken_words hst w hw

theorem Statement.isToken_flatMap_words {context : Option Ref} {sts : List Statement}
    (hsts : ∀ st ∈ sts, st.Valid context) : ∀ w ∈ sts.flatMap Statement.words, IsToken w := by
  intro w hw
  obtain ⟨st, hst, hw⟩ := List.mem_flatMap.mp hw
  exact Statement.isToken_words (hsts st hst) w hw

end Classes

end Formula
end Spreadsheet
