import Spreadsheet.Proofs.Formula.RoundTrip

/-! # Where the words of a formula stand

A reader takes the words of what it reads from the front of its input, with gaps before them. Gaps
at the end of an input are never noticed. So a text reads as a valid syntax, to the end, exactly if
the words of the syntax are all that stands in it.
-/
namespace Spreadsheet.Formula

open Text

variable {α : Type} {ws vs : List Text} {t u w input middle rest : Text} {context : Option Ref}

section Taking

theorem Spaced.append (ht : Spaced ws t) (hu : Spaced vs u) : Spaced (ws ++ vs) (t ++ u) := by
  induction ht with
  | nil => exact hu
  | cons hgap _ ih =>
    rw [List.append_assoc, List.append_assoc]
    exact .cons hgap ih

theorem Spaced.single (hw : IsGap w) (v : Text) : Spaced [v] (w ++ v) := by
  obtain ⟨gap, hgap, rfl⟩ := hw
  simpa using Spaced.cons hgap (w := v) .nil

/-- The input is the words with gaps before them, then the rest and a gap. -/
def Takes (words : List Text) (input rest : Text) : Prop :=
  ∃ t gap, input = t ++ (rest ++ gap) ∧ Spaced words t ∧ IsGap gap

theorem Takes.append (h : Takes ws input middle) (h' : Takes vs middle rest) :
    Takes (ws ++ vs) input rest := by
  obtain ⟨t, v, rfl, ht, hv⟩ := h
  obtain ⟨u, w, rfl, hu, hw⟩ := h'
  exact ⟨t ++ u, w ++ v, by simp, ht.append hu, hw.append hv⟩

theorem Takes.nil (input : Text) : Takes [] input input := ⟨[], [], by simp, .nil, .nil⟩

/-- A gap in front of everything that is taken changes nothing. -/
theorem Takes.gap_append (hw : IsGap w) (h : Takes ws input []) : Takes ws (w ++ input) [] := by
  obtain ⟨t, v, rfl, ht, hv⟩ := h
  cases ht with
  | nil => exact ⟨[], w ++ v, by simp, .nil, hw.append hv⟩
  | @cons gap x xs u hgap hu =>
    obtain ⟨glyphs, hglyphs, rfl⟩ := hw
    refine ⟨_, v, ?_, @Spaced.cons (glyphs ++ gap) x xs u ?_ hu, hv⟩
    · simp
    · intro g hg
      rcases List.mem_append.mp hg with hg | hg
      · exact hglyphs g hg
      · exact hgap g hg

theorem takes_flatten (ws : List Text) (rest : Text) : Takes ws (ws.flatten ++ rest) rest :=
  ⟨ws.flatten, [], by simp, .flatten ws, .nil⟩

/-- What is taken from a text and from others joined is taken from all of them joined. -/
theorem Takes.joinWith_cons {separator src : Text} {srcs : List Text} (hsep : IsGap separator)
    (h : Takes ws src []) (h' : Takes vs (joinWith separator srcs) []) :
    Takes (ws ++ vs) (joinWith separator (src :: srcs)) [] := by
  obtain ⟨t, w, hsrc, ht, hw⟩ := h
  cases srcs with
  | nil =>
    obtain ⟨u, v, hnil, hu, -⟩ := h'
    obtain ⟨rfl, -⟩ := List.append_eq_nil_iff.mp hnil.symm
    exact ⟨t ++ [], w, by rw [List.append_nil]; exact hsrc, ht.append hu, hw⟩
  | cons x xs =>
    have hfirst : Takes ws (src ++ separator ++ joinWith separator (x :: xs))
        (w ++ separator ++ joinWith separator (x :: xs)) := ⟨t, [], by simp [hsrc], ht, .nil⟩
    exact hfirst.append (h'.gap_append (hw.append hsep))

/-- A reader takes the words of what it gives. -/
def Spells (item : Text → Option (α × Text)) (spell : α → List Text) : Prop :=
  ∀ ⦃input a rest⦄, item input = some (a, rest) → Takes (spell a) input rest

theorem spells_readWord (scan : Text → Nat) : Spells (readWord scan) fun w => [w] := by
  intro input word rest h
  obtain ⟨-, -, htrim⟩ := readWord_eq_some h
  obtain ⟨v, w, hv, hw, hinput⟩ := exists_trim input
  rw [htrim, List.append_assoc, ← List.append_assoc] at hinput
  exact ⟨v ++ word, w, hinput, .single hv word, hw⟩

theorem takes_readMark {word : String} (h : readMark word input = some rest) :
    Takes [ofString word] input rest := by
  obtain ⟨⟨w, r⟩, hw, rfl⟩ := Option.map_eq_some_iff.mp h
  have hword := readWord_literal hw
  subst hword
  exact spells_readWord _ hw

theorem spells_numeral (scan : Text → Nat) : Spells (Numeral.read scan) fun n => [n.word] :=
  fun _ _ _ h => spells_readWord scan (Numeral.read_eq_some h).1

theorem spells_address : Spells Address.read Address.words := by
  intro input a rest h
  obtain ⟨middle, hlabel, hnumber, -⟩ := Address.read_eq_some h
  exact (spells_readWord _ hlabel).append (spells_numeral _ hnumber)

theorem spells_readReference (context : Option Ref) :
    Spells (Factor.readReference context) Factor.words := by
  intro input f rest h
  rcases Factor.readReference_eq_some h with ⟨a, ha, rfl⟩ | ⟨rows, cols, ref, -, rfl, hrelative⟩
  · exact spells_address ha
  · obtain ⟨t₁, _, t₂, t₃, _, _, _, hr, hrows, hc, hcols, -, -, heq⟩ :=
      Factor.readRelative_eq_some hrelative
    cases heq
    exact ((takes_readMark hr).append (spells_numeral _ hrows)).append
      ((takes_readMark hc).append (spells_numeral _ hcols))

theorem spells_factor (context : Option Ref) : Spells (Factor.read context) Factor.words := by
  intro input f rest h
  simp only [Factor.read, Option.or_eq_some_iff, Option.map_eq_some_iff] at h
  rcases h with h | ⟨-, ⟨n, r⟩, hn, h⟩
  · exact spells_readReference context h
  · cases h
    exact spells_numeral _ hn

theorem takes_many {item : Text → Option (α × Text)} {spell : α → List Text}
    (hconsumes : Consumes item) (hitem : Spells item spell) (input : Text) :
    Takes ((many item input).1.flatMap spell) input (many item input).2 := by
  induction input using many_induction hconsumes with
  | stop input h =>
    rw [many_none h]
    exact .nil input
  | step input a rest h ih =>
    rw [many_some hconsumes h, List.flatMap_cons]
    exact (hitem h).append ih

theorem spells_chain {mark : String} {item : Text → Option (α × Text)} {spell : α → List Text}
    (hconsumes : Consumes item) (hitem : Spells item spell) :
    Spells (Chain.read mark item) (Chain.words (ofString mark) spell) := by
  intro input c rest h
  obtain ⟨⟨a, r⟩, ha, heq⟩ := Option.map_eq_some_iff.mp h
  cases heq
  have hfollowing : Spells (following mark item) fun a => ofString mark :: spell a := by
    intro input b rest hb
    obtain ⟨middle, hmark, hb⟩ := Option.bind_eq_some_iff.mp hb
    exact (takes_readMark hmark).append (hitem hb)
  exact (hitem ha).append (takes_many (consumes_following mark hconsumes) hfollowing r)

/-- There is no gap before a word if the input begins with a visible byte. -/
theorem readWord_visible {scan : Text → Nat} {b : UInt8} (hb : isVisible b)
    (h : readWord scan (b :: t) = some (w, rest)) :
    ∃ gap, b :: t = w ++ (rest ++ gap) ∧ IsGap gap := by
  obtain ⟨-, -, htrim⟩ := readWord_eq_some h
  obtain ⟨gap, hgap, hend⟩ := exists_trimEnd (b :: t)
  rw [trim, trimStart_visible hb] at htrim
  rw [htrim, List.append_assoc] at hend
  exact ⟨gap, hend, hgap⟩

/-- The body takes all blanks before the closing quote, so that one stands right behind it. -/
theorem readQuoted_cases {body : Text} (h : readQuoted input = some (body, rest)) :
    ∃ r, readMark "\"" input = some (body ++ byte '"' :: r) ∧ IsRun (· != byte '"') body ∧
      readMark "\"" (byte '"' :: r) = some rest := by
  obtain ⟨middle, hopen, hbody, hne, hclose⟩ := readQuoted_eq_some h
  have hsplit : body ++ middle.dropWhile (· != byte '"') = middle := by
    rw [hbody]
    exact List.takeWhile_append_dropWhile
  have hdrop : middle.drop body.length = middle.dropWhile (· != byte '"') := by
    nth_rewrite 1 [← hsplit]
    exact List.drop_left
  rw [hdrop] at hclose
  cases hr : middle.dropWhile (· != byte '"') with
  | nil =>
    rw [hr] at hclose
    cases hclose
  | cons b r =>
    have hb : b = byte '"' := by
      simpa [hr] using List.head_dropWhile_not (· != byte '"') (l := middle) (by simp [hr])
    rw [hr, hb] at hsplit hclose
    exact ⟨r, hsplit ▸ hopen, hbody ▸ isRun_takeWhile (hbody ▸ hne), hclose⟩

theorem spells_readQuoted : Spells readQuoted fun body => [quote body] := by
  intro input body rest h
  obtain ⟨r, hopen, -, hclose⟩ := readQuoted_cases h
  obtain ⟨⟨q, r'⟩, hq, rfl⟩ := Option.map_eq_some_iff.mp hclose
  obtain ⟨gap, hgap, hblank⟩ := readWord_visible (by decide) hq
  rw [readWord_literal hq] at hgap
  obtain ⟨t, v, rfl, ht, hv⟩ := takes_readMark hopen
  cases ht with
  | @cons glyphs _ _ _ hglyphs hnil =>
    cases hnil
    refine ⟨_, gap ++ v, ?_, .single ⟨glyphs, hglyphs, rfl⟩ (quote body), hblank.append hv⟩
    rw [hgap, quote]
    simp
    rfl

theorem spells_expression (context : Option Ref) :
    Spells (Expression.read context) (Expression.words Factor.words) := by
  intro input e rest h
  simp only [Expression.read, Option.or_eq_some_iff, Option.map_eq_some_iff] at h
  rcases h with ⟨⟨terms, r⟩, hterms, h⟩ | ⟨-, ⟨body, r⟩, hbody, h⟩
  · cases h
    exact spells_chain (consumes_chain "*" (consumes_factor context))
      (spells_chain (consumes_factor context) (spells_factor context)) hterms
  · cases h
    exact spells_readQuoted hbody

theorem spells_readAssignment : Spells Statement.readAssignment Statement.words := by
  intro input st rest h
  obtain ⟨target, t₁, t₂, e, htarget, hmark, he, rfl⟩ := Statement.readAssignment_eq_some h
  exact (spells_address htarget).append ((takes_readMark hmark).append (spells_expression _ he))

end Taking

section Trimming

/-- A reader that does not notice blanks at the ends of its input. -/
def Trims (item : Text → Option (α × Text)) : Prop :=
  ∀ ⦃t u⦄, t.trim = u.trim → item t = item u

theorem trims_readWord (scan : Text → Nat) : Trims (readWord scan) := by
  intro t u h
  rw [readWord, readWord, h]

theorem readMark_eq_of_trim (word : String) (h : t.trim = u.trim) :
    readMark word t = readMark word u := by
  rw [readMark, readMark, trims_readWord _ h]

theorem trims_numeral (scan : Text → Nat) : Trims (Numeral.read scan) := by
  intro t u h
  rw [Numeral.read, Numeral.read, trims_readWord _ h]

theorem trims_address : Trims Address.read := by
  intro t u h
  rw [Address.read, Address.read, trims_readWord _ h]

theorem trims_factor (context : Option Ref) : Trims (Factor.read context) := by
  intro t u h
  simp only [Factor.read, Factor.readReference, Factor.readRelative, trims_address h,
    readMark_eq_of_trim "r" h, trims_numeral _ h]

theorem Trims.chain {item : Text → Option (α × Text)} (hitem : Trims item) (mark : String) :
    Trims (Chain.read mark item) := by
  intro t u h
  rw [Chain.read, Chain.read, hitem h]

theorem trims_expression (context : Option Ref) : Trims (Expression.read context) := by
  intro t u h
  simp only [Expression.read, readQuoted, ((trims_factor context).chain "*").chain "+" h,
    readMark_eq_of_trim _ h]

theorem trims_statement (context : Option Ref) : Trims (Statement.read context) := by
  intro t u h
  simp only [Statement.read, Statement.readAssignment, Statement.readPrint, following,
    trims_address h, readMark_eq_of_trim _ h]

/-- A text reads as an expression, to the end, exactly if the words of the expression are all that
stands in it. -/
theorem Expression.read_eq_iff {e : Expression Factor} :
    Expression.read context input = some (e, []) ↔
      e.Valid context ∧ Takes (e.words Factor.words) input [] := by
  constructor
  · intro h
    exact ⟨Expression.valid_of_read h, spells_expression context h⟩
  · rintro ⟨he, t, w, rfl, ht, hw⟩
    have hwritten : Written (e.words Factor.words) t := ⟨ht, Expression.isToken_words he⟩
    rw [List.nil_append, trims_expression context (trim_append_gap hw t)]
    rw [← List.append_nil (e.words Factor.words)] at hwritten
    obtain ⟨rest, hread, hrest⟩ := expression_completes context he begins_nil hwritten
    rw [hread, hrest.nil_eq]

theorem Statement.read_gap (hw : IsGap w) : Statement.read context w = none := by
  rw [trims_statement context (hw.trim_eq.trans IsGap.nil.trim_eq.symm)]
  exact Statement.read_nil context

theorem many_eq_of_trim {item : Text → Option (α × Text)} (hconsumes : Consumes item)
    (hitem : Trims item) (h : t.trim = u.trim) :
    (many item t).1 = (many item u).1 ∧ (many item t).2.trim = (many item u).2.trim := by
  have hsame := hitem h
  cases hu : item u with
  | none =>
    rw [many_none hu, many_none (hsame.trans hu)]
    exact ⟨rfl, h⟩
  | some p =>
    rw [many_some hconsumes hu, many_some hconsumes (hsame.trans hu)]
    exact ⟨rfl, rfl⟩

/-- A text in which the words of a program are all that stands reads as the program. -/
theorem exists_readProgram_eq {sts : List Statement} (hsts : ∀ st ∈ sts, st.Valid context)
    (h : Takes (sts.flatMap Statement.words) input []) :
    ∃ gap, readProgram context input = (sts, gap) ∧ IsGap gap := by
  obtain ⟨t, w, rfl, ht, hw⟩ := h
  have hread := readProgram_written hsts ⟨ht, Statement.isToken_flatMap_words hsts⟩
  obtain ⟨hsame, hrest⟩ := many_eq_of_trim (consumes_statement context) (trims_statement context)
    (trim_append_gap hw t)
  rw [readProgram] at hread
  rw [hread] at hsame hrest
  rw [List.nil_append, readProgram]
  exact ⟨(many (Statement.read context) (t ++ w)).2, Prod.ext hsame rfl, isGap_of_trim_eq hrest⟩

end Trimming

end Spreadsheet.Formula
