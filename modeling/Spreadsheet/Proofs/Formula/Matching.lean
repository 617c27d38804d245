import Spreadsheet.Proofs.Formula.Reading
import Spreadsheet.Proofs.Formula.Tree

/-! # What the grammar of formulas matches

Each rule of the grammar matches exactly what the reader of its syntax reads, and builds the tree of
it. Whether it matches, and what, does not depend on the cells: only the values in the tree do.
Cells are read in the order of the text, and a rule that fails has read none.
-/
namespace Spreadsheet.Formula

open Grammar

variable {fx : Effects} {P Q : Sheet → Prop} {input rest : Text} {fuel : Nat}

section Tokens

theorem read_pattern (name : Text) (scan : Text → Nat) (interpret : Text → Option Attribute) :
    Token.read ⟨name, true, scan, interpret⟩ input =
      (readWord scan input).bind fun p => (interpret p.1).map fun a => (p.1, a, p.2) := by
  simp only [Token.read, readWord, if_true]
  split <;> simp

theorem gives_mark {symbol : Symbol} {word : String} (hrule : rule fx symbol = literal word)
    (h : readMark word input = some rest) :
    Gives P ((grammar fx).run (fuel + 1) symbol input) (some (markTree symbol word, rest)) P := by
  obtain ⟨⟨w, r⟩, hw, rfl⟩ := Option.map_eq_some_iff.mp h
  have hread : Gives P ((grammar fx).run (fuel + 1) symbol input) _ P := gives_run_token hrule
  rw [read_pattern, hw, readWord_literal hw] at hread
  exact hread

theorem gives_mark_none {symbol : Symbol} {word : String} (hrule : rule fx symbol = literal word)
    (h : readMark word input = none) :
    Gives P ((grammar fx).run (fuel + 1) symbol input) none P := by
  have hread : Gives P ((grammar fx).run (fuel + 1) symbol input) _ P := gives_run_token hrule
  rw [read_pattern, Option.map_eq_none_iff.mp h] at hread
  exact hread

theorem gives_numeral {symbol : Symbol} {name : String} {scan : Text → Nat} {n : Numeral}
    (hrule : rule fx symbol = pattern name scan integerAttribute)
    (h : Numeral.read scan input = some (n, rest)) :
    Gives P ((grammar fx).run (fuel + 1) symbol input) (some (n.tree symbol, rest)) P := by
  obtain ⟨hword, hvalue⟩ := Numeral.read_eq_some h
  have hread : Gives P ((grammar fx).run (fuel + 1) symbol input) _ P := gives_run_token hrule
  rw [read_pattern, hword] at hread
  simp only [Option.bind_some, integerAttribute, hvalue] at hread
  exact hread

theorem gives_numeral_none {symbol : Symbol} {name : String} {scan : Text → Nat}
    (hrule : rule fx symbol = pattern name scan integerAttribute)
    (h : Numeral.read scan input = none) :
    Gives P ((grammar fx).run (fuel + 1) symbol input) none P := by
  have hread : Gives P ((grammar fx).run (fuel + 1) symbol input) _ P := gives_run_token hrule
  have hnone : (Token.read ⟨Text.ofString name, true, scan, integerAttribute⟩ input) = none := by
    rw [read_pattern]
    cases hword : readWord scan input with
    | none => rfl
    | some p =>
      simp only [Numeral.read, hword, Option.bind_eq_bind, Option.bind_some] at h
      cases hvalue : (Decimal.read p.1).toOption with
      | none => simp [integerAttribute, hvalue]
      | some i => simp [hvalue] at h
  rw [hnone] at hread
  exact hread

end Tokens

section References

theorem gives_label {label : Text}
    (h : readWord (Scan.run Text.isUpper) input = some (label, rest)) :
    Gives P ((grammar fx).run (fuel + 2) .columnLabel input)
      (some (Node.branch .columnLabel 0 [Node.token .upperAlphaString label {}] {}, rest)) P := by
  have htoken : Gives P ((grammar fx).run (fuel + 1) .upperAlphaString input)
      (some (Node.token .upperAlphaString label {}, rest)) P := by
    have hread : Gives P ((grammar fx).run (fuel + 1) .upperAlphaString input) _ P :=
      gives_run_token rfl
    rw [read_pattern, h] at hread
    exact hread
  exact gives_run_production rfl
    (gives_choose_first (gives_attempt_plain rfl rfl (gives_sequence_cons htoken gives_sequence_nil)))

theorem gives_label_none (h : readWord (Scan.run Text.isUpper) input = none) :
    Gives P ((grammar fx).run (fuel + 2) .columnLabel input) none P := by
  have htoken : Gives P ((grammar fx).run (fuel + 1) .upperAlphaString input) none P := by
    have hread : Gives P ((grammar fx).run (fuel + 1) .upperAlphaString input) _ P :=
      gives_run_token rfl
    rw [read_pattern, h] at hread
    exact hread
  exact gives_run_production rfl
    (gives_choose_next (gives_attempt_none (gives_sequence_head_none htoken)) gives_choose_nil)

theorem gives_rowNumber {n : Numeral}
    (h : Numeral.read (Scan.run Text.isDigit) input = some (n, rest)) :
    Gives P ((grammar fx).run (fuel + 2) .rowNumber input)
      (some (Node.branch .rowNumber 0 [n.tree .positiveInteger] { value := .int n.value }, rest)) P :=
  gives_run_production rfl (gives_choose_first (gives_attempt_action rfl rfl
    (gives_sequence_cons (gives_numeral rfl h) gives_sequence_nil) (Gives.pure _)))

theorem gives_rowNumber_none (h : Numeral.read (Scan.run Text.isDigit) input = none) :
    Gives P ((grammar fx).run (fuel + 2) .rowNumber input) none P :=
  gives_run_production rfl (gives_choose_next
    (gives_attempt_none (gives_sequence_head_none (gives_numeral_none rfl h))) gives_choose_nil)

theorem gives_address {a : Address} (h : Address.read input = some (a, rest)) :
    Gives P ((grammar fx).run (fuel + 3) .absoluteCell input) (some (a.tree, rest)) P := by
  obtain ⟨middle, hlabel, hnumber, href⟩ := Address.read_eq_some h
  refine gives_run_production rfl (gives_choose_first (gives_attempt_action rfl rfl
    (gives_sequence_cons (gives_label hlabel)
      (gives_sequence_cons (gives_rowNumber hnumber) gives_sequence_nil)) ?_))
  have hact : resolveAbsolute (Node.branch .absoluteCell 0
      [Node.branch .columnLabel 0 [Node.token .upperAlphaString a.label {}] {},
        Node.branch .rowNumber 0 [a.number.tree .positiveInteger] { value := .int a.number.value }]
      default) = pure (some { ref := some a.ref }) := by
    simp [resolveAbsolute, Node.childText, Node.childAttr, Node.branch, Node.joinedText, Node.token,
      Value.int?, href]
  rw [hact]
  exact Gives.pure _

/-- A label that denotes no column is logged, and nothing else happens. -/
theorem gives_address_none (hnote : ∀ s message, P s → P (s.note .debug message))
    (h : Address.read input = none) :
    Gives P ((grammar fx).run (fuel + 3) .absoluteCell input) none P := by
  refine gives_run_production rfl (gives_choose_next (Q := P) ?_ gives_choose_nil)
  cases hlabel : readWord (Scan.run Text.isUpper) input with
  | none => exact gives_attempt_none (gives_sequence_head_none (gives_label_none hlabel))
  | some p =>
    cases hnumber : Numeral.read (Scan.run Text.isDigit) p.2 with
    | none =>
      exact gives_attempt_none (gives_sequence_tail_none (gives_label hlabel)
        (gives_sequence_head_none (gives_rowNumber_none hnumber)))
    | some q =>
      refine gives_attempt_refused rfl rfl (gives_sequence_cons (gives_label hlabel)
        (gives_sequence_cons (gives_rowNumber hnumber) gives_sequence_nil)) ?_
      cases href : Ref.ofLabel p.1 q.1.value with
      | ok r => simp [Address.read, hlabel, hnumber, href, Except.toOption] at h
      | error e =>
        simp only [resolveAbsolute, Node.childText, Node.childAttr, Node.branch, Node.joinedText,
          Node.token, Value.int?, href, List.getElem?_cons_zero, List.getElem?_cons_succ,
          List.append_nil, Option.getD_some, Bool.false_eq_true, if_false]
        exact (Gives.modify fun s hs => hnote s _ hs).bind (Gives.pure _)

theorem resolveRelative_eq (rows cols : Numeral) (s : Sheet) :
    resolveRelative (Node.branch .relativeCell 0
      [markTree .rowMark "r", rows.tree .integer, markTree .columnMark "c", cols.tree .integer]
      default) s =
    some ((s.context.bind fun o => o.shift? rows.value cols.value).map
      fun r => { ref := some r }, s) := by
  obtain ⟨cells, context, detectsCycles, evaluating, journal⟩ := s
  cases context with
  | none => rfl
  | some origin =>
    generalize hn : Node.branch .relativeCell 0 [markTree .rowMark "r", rows.tree .integer,
      markTree .columnMark "c", cols.tree .integer] default = n
    have hrows : (n.childAttr 1).value.int?.getD 0 = rows.value := by rw [← hn]; rfl
    have hcols : (n.childAttr 3).value.int?.getD 0 = cols.value := by rw [← hn]; rfl
    simp only [resolveRelative, hrows, hcols, Bind.bind, StateT.bind, get, getThe,
      MonadStateOf.get, StateT.get, Option.pure_def, Option.bind_some]
    cases origin.shift? rows.value cols.value <;> rfl

theorem gives_relative {context : Option Ref} {rows cols : Numeral} {ref : Ref}
    (hctx : ∀ s, P s → s.context = context)
    (h : Factor.readRelative context input = some (.relative rows cols ref, rest)) :
    Gives P ((grammar fx).run (fuel + 2) .relativeCell input)
      (some (Node.branch .relativeCell 0
        [markTree .rowMark "r", rows.tree .integer, markTree .columnMark "c", cols.tree .integer]
        { ref := some ref }, rest)) P := by
  obtain ⟨t₁, rows, t₂, t₃, cols, origin, ref, h₁, h₂, h₃, h₄, rfl, h₆, hf⟩ :=
    Factor.readRelative_eq_some h
  cases hf
  refine gives_run_production rfl (gives_choose_first (gives_attempt_action rfl rfl
    (gives_sequence_cons (gives_mark rfl h₁) (gives_sequence_cons (gives_numeral rfl h₂)
      (gives_sequence_cons (gives_mark rfl h₃) (gives_sequence_cons (gives_numeral rfl h₄)
        gives_sequence_nil)))) fun s hs => ⟨s, ?_, hs⟩))
  rw [resolveRelative_eq, hctx s hs, Option.bind_some, h₆]
  rfl

theorem gives_relative_none {context : Option Ref} (hctx : ∀ s, P s → s.context = context)
    (h : Factor.readRelative context input = none) :
    Gives P ((grammar fx).run (fuel + 2) .relativeCell input) none P := by
  refine gives_run_production rfl (gives_choose_next (Q := P) ?_ gives_choose_nil)
  cases h₁ : readMark "r" input with
  | none => exact gives_attempt_none (gives_sequence_head_none (gives_mark_none rfl h₁))
  | some t₁ =>
    cases h₂ : Numeral.read Scan.signedDigits t₁ with
    | none =>
      exact gives_attempt_none (gives_sequence_tail_none (gives_mark rfl h₁)
        (gives_sequence_head_none (gives_numeral_none rfl h₂)))
    | some p =>
      cases h₃ : readMark "c" p.2 with
      | none =>
        exact gives_attempt_none (gives_sequence_tail_none (gives_mark rfl h₁)
          (gives_sequence_tail_none (gives_numeral rfl h₂)
            (gives_sequence_head_none (gives_mark_none rfl h₃))))
      | some t₃ =>
        cases h₄ : Numeral.read Scan.signedDigits t₃ with
        | none =>
          exact gives_attempt_none (gives_sequence_tail_none (gives_mark rfl h₁)
            (gives_sequence_tail_none (gives_numeral rfl h₂)
              (gives_sequence_tail_none (gives_mark rfl h₃)
                (gives_sequence_head_none (gives_numeral_none rfl h₄)))))
        | some q =>
          refine gives_attempt_refused rfl rfl (gives_sequence_cons (gives_mark rfl h₁)
            (gives_sequence_cons (gives_numeral rfl h₂) (gives_sequence_cons (gives_mark rfl h₃)
              (gives_sequence_cons (gives_numeral rfl h₄) gives_sequence_nil))))
            fun s hs => ⟨s, ?_, hs⟩
          have hnone : (context.bind fun o => o.shift? p.1.value q.1.value) = none := by
            cases context with
            | none => rfl
            | some o =>
              cases hshift : o.shift? p.1.value q.1.value with
              | none => rw [Option.bind_some, hshift]
              | some r => simp [Factor.readRelative, h₁, h₂, h₃, h₄, hshift] at h
          rw [resolveRelative_eq, hctx s hs, hnone]
          rfl

theorem gives_reference {context : Option Ref} {f : Factor}
    (hctx : ∀ s, P s → s.context = context)
    (hnote : ∀ s message, P s → P (s.note .debug message))
    (h : Factor.readReference context input = some (f, rest)) :
    Gives P ((grammar fx).run (fuel + 4) .cellReference input)
      (some (f.referenceTree, rest)) P := by
  rcases Factor.readReference_eq_some h with ⟨a, ha, rfl⟩ | ⟨rows, cols, ref, ha, rfl, hr⟩
  · exact gives_run_production rfl (gives_choose_first (gives_attempt_action rfl rfl
      (gives_sequence_cons (gives_address ha) gives_sequence_nil) (Gives.pure _)))
  · exact gives_run_production rfl (gives_choose_next
      (gives_attempt_none (gives_sequence_head_none (gives_address_none hnote ha)))
      (gives_choose_first (gives_attempt_action rfl rfl
        (gives_sequence_cons (gives_relative hctx hr) gives_sequence_nil) (Gives.pure _))))

theorem gives_reference_none {context : Option Ref} (hctx : ∀ s, P s → s.context = context)
    (hnote : ∀ s message, P s → P (s.note .debug message))
    (h : Factor.readReference context input = none) :
    Gives P ((grammar fx).run (fuel + 4) .cellReference input) none P := by
  obtain ⟨ha, hr⟩ := Option.or_eq_none_iff.mp h
  exact gives_run_production rfl (gives_choose_next
    (gives_attempt_none (gives_sequence_head_none
      (gives_address_none hnote (Option.map_eq_none_iff.mp ha))))
    (gives_choose_next
      (gives_attempt_none (gives_sequence_head_none (gives_relative_none hctx hr)))
      gives_choose_nil))

end References

/-- The sheets that a match goes through: `At xs` holds after the cells `xs` were read. A cell that
may be read is shown the same whenever it is read, and logging is not noticed. -/
structure Passage (fx : Effects) (context : Option Ref) (shown : Ref → Cell) (may : Ref → Prop)
    (At : List Ref → Sheet → Prop) : Prop where
  context_eq : ∀ {xs s}, At xs s → s.context = context
  note : ∀ {xs s} (message : Text), At xs s → At xs (s.note .debug message)
  compute : ∀ {xs r}, may r → Gives (At xs) (fx.compute r) (shown r) (At (xs ++ [r]))

/-- A symbol matches what `read` reads, given a depth of `k` and one more for each byte. -/
structure Matches (fx : Effects) (may : Ref → Prop) (At : List Ref → Sheet → Prop)
    (symbol : Symbol) (k : Nat) {α : Type} (read : Text → Option (α × Text)) (tree : α → Tree)
    (refs : α → List Ref) : Prop where
  consumes : Consumes read
  success : ∀ {fuel input a rest xs}, k + input.length ≤ fuel → read input = some (a, rest) →
    (∀ r ∈ refs a, may r) →
    Gives (At xs) ((grammar fx).run fuel symbol input) (some (tree a, rest)) (At (xs ++ refs a))
  failure : ∀ {fuel input xs}, k + input.length ≤ fuel → read input = none →
    Gives (At xs) ((grammar fx).run fuel symbol input) none (At xs)

section Factors

variable {context : Option Ref} {shown : Ref → Cell} {may : Ref → Prop}
  {At : List Ref → Sheet → Prop}

theorem Passage.matches_value (hp : Passage fx context shown may At) :
    Matches fx may At .value 5 (Factor.read context) (Factor.tree fun r => (shown r).value)
      Factor.refs where
  consumes := consumes_factor context
  success := by
    intro fuel input f rest xs hfuel hread hmay
    obtain ⟨fuel, rfl⟩ := Nat.exists_eq_add_of_le' (Nat.le_of_add_right_le hfuel)
    have hctx : ∀ s, At xs s → s.context = context := fun s hs => hp.context_eq hs
    have hnote : ∀ s message, At xs s → At xs (s.note .debug message) :=
      fun s message hs => hp.note message hs
    rcases Option.or_eq_some_iff.mp hread with href | ⟨href, hint⟩
    · have href' : Gives (At xs) ((grammar fx).run (fuel + 4) .cellReference input) _ _ :=
        gives_reference hctx hnote href
      have hseq := gives_sequence_cons href' gives_sequence_nil
      rcases Factor.readReference_eq_some href with ⟨a, -, rfl⟩ | ⟨rows, cols, r, -, rfl, -⟩
      · exact gives_run_production rfl (gives_choose_first (gives_attempt_action rfl rfl hseq
          ((hp.compute (hmay _ (by simp [Factor.refs]))).bind (Gives.pure _))))
      · exact gives_run_production rfl (gives_choose_first (gives_attempt_action rfl rfl hseq
          ((hp.compute (hmay _ (by simp [Factor.refs]))).bind (Gives.pure _))))
    · obtain ⟨⟨n, r⟩, hn, h⟩ := Option.map_eq_some_iff.mp hint
      cases h
      simp only [Factor.refs, List.append_nil]
      exact gives_run_production rfl (gives_choose_next
        (gives_attempt_none (gives_sequence_head_none (gives_reference_none hctx hnote href)))
        (gives_choose_first (gives_attempt_action rfl rfl
          (gives_sequence_cons (gives_numeral rfl hn) gives_sequence_nil) (Gives.pure _))))
  failure := by
    intro fuel input xs hfuel hread
    obtain ⟨fuel, rfl⟩ := Nat.exists_eq_add_of_le' (Nat.le_of_add_right_le hfuel)
    obtain ⟨href, hint⟩ := Option.or_eq_none_iff.mp hread
    exact gives_run_production rfl (gives_choose_next
      (gives_attempt_none (gives_sequence_head_none (gives_reference_none
        (fun s hs => hp.context_eq hs) (fun s message hs => hp.note message hs) href)))
      (gives_choose_next
        (gives_attempt_none (gives_sequence_head_none
          (gives_numeral_none rfl (Option.map_eq_none_iff.mp hint))))
        gives_choose_nil))

end Factors

section Chains

variable {α : Type} {may : Ref → Prop} {At : List Ref → Sheet → Prop}
  {item tail mark : Symbol} {word name : String} {op : Value → Value → Value} {k : Nat}
  {read : Text → Option (α × Text)} {tree : α → Tree} {refs : α → List Ref}

theorem combine_tail (t : Tree) (ts : List Tree) :
    combine op 1 2 (Node.branch tail 0 [markTree mark word, t, tailTree tail mark word op ts]
      default) = Chain.fold op t.attr.value (ts.map (·.attr.value)) := by
  cases ts <;> rfl

theorem combine_chain {symbol : Symbol} (t : Tree) (ts : List Tree) :
    combine op 0 1 (Node.branch symbol 0 [t, tailTree tail mark word op ts] default) =
      Chain.fold op t.attr.value (ts.map (·.attr.value)) := by
  cases ts <;> rfl

/-- The tail of a chain matches as many items as follow, each behind a mark. It never fails: a mark
that no item follows is left for what comes next. -/
theorem Matches.gives_tail (hm : Matches fx may At item (k + 1) read tree refs)
    (hmark : rule fx mark = literal word)
    (htail : rule fx tail = production name [[mark, item, tail], [.epsilon]]
      (some (combining op 1 2)))
    {xs : List Ref} (hfuel : k + 2 + input.length ≤ fuel)
    (hmay : ∀ a ∈ (many (following word read) input).1, ∀ r ∈ refs a, may r) :
    Gives (At xs) ((grammar fx).run fuel tail input)
      (some (tailTree tail mark word op ((many (following word read) input).1.map tree),
        (many (following word read) input).2))
      (At (xs ++ (many (following word read) input).1.flatMap refs)) := by
  have hconsumes := consumes_following word hm.consumes
  induction input using many_induction hconsumes generalizing fuel xs with
  | stop input hnone =>
    obtain ⟨fuel, rfl⟩ : ∃ m, fuel = m + 1 + 1 := ⟨fuel - 2, by omega⟩
    rw [many_none hnone, List.flatMap_nil, List.append_nil]
    refine gives_run_production htail (gives_choose_next (Q := At xs) (gives_attempt_none ?_)
      (gives_choose_first (gives_attempt_vacuous rfl
        (gives_sequence_cons (gives_run_epsilon rfl) gives_sequence_nil))))
    cases hword : readMark word input with
    | none => exact gives_sequence_head_none (gives_mark_none hmark hword)
    | some middle =>
      have hlen := readMark_length hword
      have hread : read middle = none := by simpa [following, hword] using hnone
      exact gives_sequence_tail_none (gives_mark hmark hword)
        (gives_sequence_head_none (hm.failure (by omega) hread))
  | step input a rest hsome ih =>
    obtain ⟨fuel, rfl⟩ : ∃ m, fuel = m + 1 + 1 := ⟨fuel - 2, by omega⟩
    obtain ⟨middle, hword, hread⟩ := Option.bind_eq_some_iff.mp hsome
    have hlen := readMark_length hword
    have hrest := hm.consumes _ _ _ hread
    rw [many_some hconsumes hsome] at hmay ⊢
    have hitem : Gives (At xs) ((grammar fx).run (fuel + 1) item middle) _ _ :=
      hm.success (by omega) hread (hmay a (by simp))
    have htails : Gives (At (xs ++ refs a)) ((grammar fx).run (fuel + 1) tail rest) _ _ :=
      ih (by omega) fun b hb => hmay b (by simp [hb])
    rw [List.flatMap_cons, ← List.append_assoc, List.map_cons]
    refine gives_run_production htail (gives_choose_first (gives_attempt_action rfl rfl
      (gives_sequence_cons (gives_mark hmark hword)
        (gives_sequence_cons hitem (gives_sequence_cons htails gives_sequence_nil))) ?_))
    rw [combining, combine_tail]
    exact Gives.pure _

theorem Matches.gives_chain (hm : Matches fx may At item (k + 1) read tree refs)
    (hmark : rule fx mark = literal word)
    (htail : rule fx tail = production name [[mark, item, tail], [.epsilon]]
      (some (combining op 1 2)))
    {xs : List Ref} {c : Chain α} (hfuel : k + 1 + input.length ≤ fuel)
    (hread : Chain.read word read input = some (c, rest))
    (hmay : ∀ r ∈ c.toList.flatMap refs, may r) :
    Gives (At xs) (sequence ((grammar fx).run fuel) [item, tail] input)
      (some ([tree c.head, tailTree tail mark word op (c.tail.map tree)], rest))
      (At (xs ++ c.toList.flatMap refs)) := by
  obtain ⟨⟨a, middle⟩, ha, h⟩ := Option.map_eq_some_iff.mp hread
  have hlen := hm.consumes _ _ _ ha
  cases h
  simp only [Chain.toList, List.flatMap_cons, List.mem_append] at hmay ⊢
  rw [← List.append_assoc]
  refine gives_sequence_cons (hm.success hfuel ha fun r hr => hmay r (.inl hr))
    (gives_sequence_cons (hm.gives_tail hmark htail (by omega) ?_) gives_sequence_nil)
  intro b hb r hr
  exact hmay r (.inr (List.mem_flatMap.mpr ⟨b, hb, hr⟩))

end Chains

section Expressions

variable {context : Option Ref} {shown : Ref → Cell} {may : Ref → Prop}
  {At : List Ref → Sheet → Prop}

theorem Passage.matches_term (hp : Passage fx context shown may At) :
    Matches fx may At .term 6 (Chain.read "*" (Factor.read context))
      (fun c => termTree (c.map (Factor.tree fun r => (shown r).value)))
      (fun c => c.toList.flatMap Factor.refs) where
  consumes := consumes_chain "*" (consumes_factor context)
  success := by
    intro fuel input c rest xs hfuel hread hmay
    obtain ⟨fuel, rfl⟩ : ∃ m, fuel = m + 1 := ⟨fuel - 1, by omega⟩
    refine gives_run_production rfl (gives_choose_first (gives_attempt_action rfl rfl
      (hp.matches_value.gives_chain rfl rfl (by omega) hread hmay) ?_))
    rw [combining, combine_chain]
    exact Gives.pure _
  failure := by
    intro fuel input xs hfuel hread
    obtain ⟨fuel, rfl⟩ : ∃ m, fuel = m + 1 := ⟨fuel - 1, by omega⟩
    have hnone := Option.map_eq_none_iff.mp hread
    exact gives_run_production rfl (gives_choose_next (gives_attempt_none
      (gives_sequence_head_none (hp.matches_value.failure (by omega) hnone))) gives_choose_nil)

theorem gives_noQuote {body : Text} (hbody : body = input.takeWhile (· != Text.byte '"'))
    (hne : body ≠ []) :
    Gives P ((grammar fx).run (fuel + 1) .stringNoQuote input)
      (some (Node.token .stringNoQuote body {}, input.drop body.length)) P := by
  have hread : Gives P ((grammar fx).run (fuel + 1) .stringNoQuote input) _ P :=
    gives_run_token rfl
  have htake : input.take (Scan.run (· != Text.byte '"') input) = body := by
    rw [hbody, Scan.run]
    exact (List.prefix_iff_eq_take.mp (List.takeWhile_prefix _)).symm
  simp only [Token.read, Bool.false_eq_true, if_false, htake, List.isEmpty_iff, hne,
    Option.map_some] at hread
  exact hread

theorem gives_noQuote_none (hbody : input.takeWhile (· != Text.byte '"') = []) :
    Gives P ((grammar fx).run (fuel + 1) .stringNoQuote input) none P := by
  have hread : Gives P ((grammar fx).run (fuel + 1) .stringNoQuote input) _ P :=
    gives_run_token rfl
  simp only [Token.read, Scan.run, hbody, Bool.false_eq_true, if_false, List.length_nil,
    List.take_zero, List.isEmpty_nil, if_true] at hread
  exact hread

theorem gives_quoted {body : Text} (h : readQuoted input = some (body, rest)) :
    Gives P ((grammar fx).run (fuel + 2) .quotedString input) (some (quotedTree body, rest)) P := by
  obtain ⟨middle, hopen, hbody, hne, hclose⟩ := readQuoted_eq_some h
  refine gives_run_production rfl (gives_choose_first (gives_attempt_action rfl rfl
    (gives_sequence_cons (gives_mark rfl hopen) (gives_sequence_cons (gives_noQuote hbody hne)
      (gives_sequence_cons (gives_mark rfl hclose) gives_sequence_nil))) ?_))
  have htext : Node.joinedText [markTree .quoteMark "\"", Node.token .stringNoQuote body {},
      markTree .quoteMark "\""] = quote body := quotedTree_text body
  simp only [quotedValue, branch_text, htext]
  exact Gives.pure _

theorem gives_quoted_none (h : readQuoted input = none) :
    Gives P ((grammar fx).run (fuel + 2) .quotedString input) none P := by
  refine gives_run_production rfl (gives_choose_next (gives_attempt_none ?_) gives_choose_nil)
  cases hopen : readMark "\"" input with
  | none => exact gives_sequence_head_none (gives_mark_none rfl hopen)
  | some middle =>
    refine gives_sequence_tail_none (gives_mark rfl hopen) ?_
    by_cases hbody : middle.takeWhile (· != Text.byte '"') = []
    · exact gives_sequence_head_none (gives_noQuote_none hbody)
    · refine gives_sequence_tail_none (gives_noQuote rfl hbody)
        (gives_sequence_head_none (gives_mark_none rfl ?_))
      have hempty : (middle.takeWhile (· != Text.byte '"')).isEmpty = false := by
        rw [Bool.eq_false_iff, ne_eq, List.isEmpty_iff]
        exact hbody
      rw [readQuoted, hopen] at h
      simp only [Option.bind_eq_bind, Option.bind_some, hempty] at h
      exact Option.map_eq_none_iff.mp h

/-- The expression rule matches what `Expression.read` reads in the context, over the values that
the cells of the expression show. -/
theorem Passage.matches_expression (hp : Passage fx context shown may At) :
    Matches fx may At .expression 7 (Expression.read context)
      (Expression.tree fun r => (shown r).value) Expression.refs where
  consumes := consumes_expression context
  success := by
    intro fuel input e rest xs hfuel hread hmay
    obtain ⟨fuel, rfl⟩ : ∃ m, fuel = m + 1 + 1 + 1 := ⟨fuel - 3, by omega⟩
    rcases Option.or_eq_some_iff.mp hread with hsum | ⟨hsum, hquoted⟩
    · obtain ⟨⟨terms, r⟩, hterms, h⟩ := Option.map_eq_some_iff.mp hsum
      cases h
      simp only [Expression.refs, Expression.factors, List.flatMap_assoc] at hmay ⊢
      have hseq : Gives (At xs) (sequence ((grammar fx).run (fuel + 1 + 1))
          [.term, .expressionTail] input) _ _ :=
        hp.matches_term.gives_chain rfl rfl (by omega) hterms hmay
      have htail : terms.tail.map (fun c => termTree (c.map (Factor.tree fun r => (shown r).value))) =
          ((terms.map (·.map (Factor.tree fun r => (shown r).value))).map termTree).tail := by
        simp [Chain.map]
      rw [htail] at hseq
      refine gives_run_production rfl (gives_choose_first (gives_attempt_action rfl rfl hseq ?_))
      change Gives _ (combining Value.add 0 1 _) _ _
      rw [combining, combine_chain]
      exact Gives.pure _
    · obtain ⟨⟨body, r⟩, hbody, h⟩ := Option.map_eq_some_iff.mp hquoted
      cases h
      have hterm := Option.map_eq_none_iff.mp (Option.map_eq_none_iff.mp hsum)
      rw [show (Expression.quoted body : Expression Factor).refs = [] from rfl, List.append_nil]
      exact gives_run_production rfl (gives_choose_next (gives_attempt_none
        (gives_sequence_head_none (hp.matches_term.failure (by omega) hterm)))
        (gives_choose_first (gives_attempt_action rfl rfl
          (gives_sequence_cons (gives_quoted hbody) gives_sequence_nil) (Gives.pure _))))
  failure := by
    intro fuel input xs hfuel hread
    obtain ⟨fuel, rfl⟩ : ∃ m, fuel = m + 1 + 1 + 1 := ⟨fuel - 3, by omega⟩
    obtain ⟨hsum, hquoted⟩ := Option.or_eq_none_iff.mp hread
    have hterm := Option.map_eq_none_iff.mp (Option.map_eq_none_iff.mp hsum)
    exact gives_run_production rfl (gives_choose_next (gives_attempt_none
      (gives_sequence_head_none (hp.matches_term.failure (by omega) hterm)))
      (gives_choose_next (gives_attempt_none (gives_sequence_head_none
        (gives_quoted_none (Option.map_eq_none_iff.mp hquoted)))) gives_choose_nil))

end Expressions

end Spreadsheet.Formula
