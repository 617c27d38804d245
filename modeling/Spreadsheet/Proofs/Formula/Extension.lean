import Spreadsheet.Proofs.Formula.Layout

/-! # Reading with more text behind

A reader that succeeds on a text reads the same from that text with a tail behind it, and leaves
what it left before, now with the tail behind it. The tail must not touch the last word, which is so
if it begins with a blank, and the first byte after the blanks must not be a mark that continues
what was read.
-/
namespace Spreadsheet.Formula

open Text

variable {α : Type} {tail t u w rest : Text} {b : UInt8}

/-- The second text is the first one with a gap and the tail behind it, less a gap at the end. -/
def Continued (tail t u : Text) : Prop :=
  ∃ v w, IsGap v ∧ IsGap w ∧ t ++ (v ++ tail) = u ++ w

section Continued

theorem continued_append (tail t : Text) : Continued tail t (t ++ tail) :=
  ⟨[], [], .nil, .nil, by simp⟩

/-- The gap at the end does not reach back to a visible byte. -/
theorem Continued.split {x y : Text} (h : Continued tail (x ++ b :: y) u) (hb : isVisible b) :
    ∃ z, u = x ++ b :: z ∧ Continued tail y z := by
  obtain ⟨v, w, hv, hw, heq⟩ := h
  rw [List.append_assoc, List.cons_append] at heq
  have hnot : b ∉ w := fun hmem => by
    have := hw.not_visible b hmem
    rw [hb] at this
    cases this
  rcases List.append_eq_append_iff.mp heq with ⟨a, rfl, ha⟩ | ⟨a, -, ha⟩
  · cases a with
    | nil => exact absurd (by rw [← List.nil_append w, ← ha]; exact List.mem_cons_self) hnot
    | cons c z =>
      obtain ⟨rfl, hrest⟩ := List.cons_eq_cons.mp ha
      exact ⟨z, rfl, v, w, hv, hw, hrest⟩
  · exact absurd (by rw [ha]; simp) hnot

theorem Continued.word {y : Text} (h : Continued tail (w ++ y) u) (hw : IsToken w) :
    ∃ z, u = w ++ z ∧ Continued tail y z := by
  rcases List.eq_nil_or_concat' w with rfl | ⟨x, b, rfl⟩
  · obtain ⟨c, r, hnil, -⟩ := hw.head
    cases hnil
  · have hb : isVisible b := hw.closed b (by simp)
    rw [List.append_assoc] at h
    obtain ⟨z, rfl, hz⟩ := h.split hb
    exact ⟨z, by simp, hz⟩

/-- Trimming keeps the tail behind a text that opens with a visible byte. -/
theorem Continued.trim {r : Text} (h : Continued tail t u) (ht : t.trim = b :: r)
    (hb : isVisible b) : Continued tail t.trim u.trim := by
  obtain ⟨v, w, hv, hw, hsplit⟩ := exists_trim t
  rw [hsplit, ht] at h
  obtain ⟨z, rfl, x, y, hx, hy, hz⟩ := h.split hb
  obtain ⟨g, hg, hend⟩ := exists_trimEnd (b :: z)
  have htrim : Text.trim (v ++ b :: z) = trimEnd (b :: z) := by
    rw [Text.trim, trimStart_blank_append hv.isBlank, trimStart_visible hb]
  refine ⟨w ++ x, g ++ y, hw.append hx, hg.append hy, ?_⟩
  calc t.trim ++ (w ++ x ++ tail)
      = b :: (r.append w ++ (x ++ tail)) := by simp [ht]
    _ = b :: z ++ y := by rw [hz, List.cons_append]
    _ = Text.trim (v ++ b :: z) ++ (g ++ y) := by rw [htrim, ← List.append_assoc, ← hend]

theorem Continued.opens (h : Continued tail t u) (ht : b ∈ t.trim.head?) (hb : isVisible b) :
    b ∈ u.trim.head? := by
  cases htrim : t.trim with
  | nil =>
    rw [htrim] at ht
    cases ht
  | cons c r =>
    rw [htrim] at ht
    cases ht
    have hcont := h.trim htrim hb
    rw [htrim, ← List.nil_append (b :: r)] at hcont
    obtain ⟨z, hz, -⟩ := hcont.split hb
    rw [hz]
    rfl

theorem Continued.trim_of_isBlank (h : Continued tail t u) (ht : isBlank t) :
    u.trim = tail.trim := by
  obtain ⟨v, w, hv, hw, heq⟩ := h
  rw [← trim_append_gap hw u, ← heq, Text.trim, trimStart_blank_append ht,
    trimStart_blank_append hv.isBlank]
  rfl

/-- A tail that begins with a blank brings no visible byte to the place where the text ends. -/
theorem Continued.head (h : Continued tail t u) (htail : ∀ x ∈ tail.head?, isVisible x = false)
    (hu : b ∈ u.head?) (hb : isVisible b) : b ∈ t.head? := by
  obtain ⟨v, w, hv, -, heq⟩ := h
  have hhead : b ∈ (t ++ (v ++ tail)).head? := by
    rw [heq, List.head?_append, Option.mem_def.mp hu]
    rfl
  cases t with
  | cons c r => exact hhead
  | nil =>
    have hnot : isVisible b = false := by
      cases v with
      | nil => exact htail b hhead
      | cons c r =>
        cases hhead
        exact hv.not_visible b List.mem_cons_self
    rw [hb] at hnot
    cases hnot

end Continued

/-- What follows a text, once the tail is behind it, opens with a byte of `next` if with any. -/
def Faces (tail : Text) (next : UInt8 → Prop) (rest : Text) : Prop :=
  ∀ u, Continued tail rest u → Opens next u

/-- A reader that reads the same from a longer text, before a byte of `next`. -/
def Extends (tail : Text) (item : Text → Option (α × Text)) (next : UInt8 → Prop) : Prop :=
  ∀ ⦃t u a rest⦄, Continued tail t u → item t = some (a, rest) → Faces tail next rest →
    ∃ rest', item u = some (a, rest') ∧ Continued tail rest rest'

section Words

variable {next : UInt8 → Prop} {scan : Text → Nat} {isWord : Text → Prop} {q : UInt8 → Bool}
  {word : String}

theorem Faces.mono {next' : UInt8 → Prop} (h : Faces tail next rest)
    (hnext : ∀ b, next b → next' b) : Faces tail next' rest :=
  fun u hu => (h u hu).mono hnext

theorem faces_true : Faces tail (fun _ => True) rest := fun _ _ _ _ => trivial

theorem faces_of_opens (ht : b ∈ t.trim.head?) (hb : isVisible b) (hnext : next b) :
    Faces tail next t := by
  intro u hu c hc
  have hsame := hu.opens ht hb
  rw [Option.mem_def] at hc hsame
  cases hc.symm.trans hsame
  exact hnext

/-- A kind of words that a scan finds, up to the first byte that is not of a class of visible
ones. -/
structure IsWordScan (scan : Text → Nat) (isWord : Text → Prop) (q : UInt8 → Bool) : Prop where
  visible : ∀ b, q b → isVisible b
  isToken : ∀ w, isWord w → IsToken w
  sound : ∀ t w rest, readWord scan t = some (w, rest) → isWord w
  append : ∀ w ds, isWord w → (∀ b ∈ ds, q b) → isWord (w ++ ds)
  scan_eq : ∀ w rest, isWord w → (∀ b ∈ rest.head?, q b = false) → scan (w ++ rest) = w.length

theorem isWordScan_run (hq : ∀ b, q b → isVisible b) : IsWordScan (Scan.run q) (IsRun q) q where
  visible := hq
  isToken w hw := hw.isToken hq
  sound t w rest h := isRun_of_readWord h
  append w ds hw hds := by
    refine ⟨fun hnil => hw.1 (List.append_eq_nil_iff.mp hnil).1, fun b hb => ?_⟩
    exact (List.mem_append.mp hb).elim (hw.2 b) (hds b)
  scan_eq w rest hw hrest := run_append hw.2 hrest

theorem isWordScan_signed : IsWordScan Scan.signedDigits IsSigned isDigit where
  visible := isVisible_of_isDigit
  isToken w hw := hw.isToken
  sound t w rest h := isSigned_of_readWord h
  append w ds hw hds := by
    have hrun := (isWordScan_run isVisible_of_isDigit).append
    rcases hw with hw | ⟨v, rfl, hv⟩
    · exact .inl (hrun w ds hw hds)
    · exact .inr ⟨v ++ ds, rfl, hrun v ds hv hds⟩
  scan_eq w rest hw hrest := signedDigits_append hw hrest

/-- A word is read as far as it goes. -/
theorem IsWordScan.head_rest (hs : IsWordScan scan isWord q) (h : readWord scan t = some (w, rest)) :
    ∀ b ∈ rest.head?, q b = false := by
  obtain ⟨hw, -, htrim⟩ := readWord_eq_some h
  have hlonger := hs.append w (rest.takeWhile q) (hs.sound t w rest h) fun b hb =>
    List.mem_takeWhile_imp hb
  have hstop : ∀ b ∈ (rest.dropWhile q).head?, q b = false := by
    intro b hb
    have := List.head?_dropWhile_not q rest
    rwa [Option.mem_def.mp hb] at this
  have hsplit : w ++ rest = (w ++ rest.takeWhile q) ++ rest.dropWhile q := by
    rw [List.append_assoc, List.takeWhile_append_dropWhile]
  have hall : w = w ++ rest.takeWhile q := by
    rw [htrim, hsplit, hs.scan_eq _ _ hlonger hstop, List.take_left'] at hw
    · exact hw
    · rfl
  have hnone : rest.takeWhile q = [] := List.append_right_eq_self.mp hall.symm
  rwa [← List.takeWhile_append_dropWhile (p := q) (l := rest), hnone, List.nil_append]

theorem IsWordScan.extends (hs : IsWordScan scan isWord q)
    (htail : ∀ x ∈ tail.head?, isVisible x = false) : Extends tail (readWord scan) next := by
  intro t u w rest h hread _
  have hw := hs.sound t w rest hread
  obtain ⟨b, r, hb, hvisible⟩ := (hs.isToken w hw).head
  have htrim := (readWord_eq_some hread).2.2
  have hcont := h.trim (htrim.trans (by rw [hb]; rfl)) hvisible
  rw [htrim] at hcont
  obtain ⟨rest', hu, hrest⟩ := hcont.word (hs.isToken w hw)
  refine ⟨rest', readWord_of_trim (hs.isToken w hw) hu (hs.scan_eq w rest' hw ?_), hrest⟩
  intro c hc
  by_contra hne
  have hq : q c := by simpa using hne
  exact hne (hs.head_rest hread c (hrest.head htail hc (hs.visible c hq)))

theorem IsWordScan.faces (hs : IsWordScan scan isWord q) (h : readWord scan t = some (w, rest))
    (hnext : ∀ b ∈ w.head?, next b) : Faces tail next t := by
  obtain ⟨b, r, rfl, hvisible⟩ := (hs.isToken w (hs.sound t w rest h)).head
  refine faces_of_opens ?_ hvisible (hnext b rfl)
  rw [(readWord_eq_some h).2.2]
  rfl

theorem readMark_extends (h : Continued tail t u) (hread : readMark word t = some rest)
    (hword : IsToken (ofString word)) :
    ∃ rest', readMark word u = some rest' ∧ Continued tail rest rest' := by
  obtain ⟨b, r, hb, hvisible⟩ := hword.head
  have htrim := trim_eq_of_readMark hread
  have hcont := h.trim (htrim.trans (by rw [hb]; rfl)) hvisible
  rw [htrim] at hcont
  obtain ⟨rest', hu, hrest⟩ := hcont.word hword
  exact ⟨rest', readMark_of_trim hu (by simp [hb]), hrest⟩

theorem faces_of_readMark (h : readMark word t = some rest) (hword : IsToken (ofString word))
    (hhead : (ofString word).head? = some b) (hnext : next b) : Faces tail next t := by
  obtain ⟨c, r, hc, hvisible⟩ := hword.head
  rw [hc, List.head?_cons, Option.some.injEq] at hhead
  subst hhead
  refine faces_of_opens ?_ hvisible hnext
  rw [trim_eq_of_readMark h, hc]
  rfl

end Words

section Factors

variable {next : UInt8 → Prop} {context : Option Ref} (htail : ∀ x ∈ tail.head?, isVisible x = false)

include htail

theorem numeral_extends {scan : Text → Nat} {isWord : Text → Prop} {q : UInt8 → Bool}
    (hs : IsWordScan scan isWord q) : Extends tail (Numeral.read scan) next := by
  intro t u n rest h hread hface
  obtain ⟨hword, hvalue⟩ := Numeral.read_eq_some hread
  obtain ⟨rest', hword', hrest⟩ := hs.extends htail h hword hface
  exact ⟨rest', Numeral.read_of_readWord ⟨hs.sound _ _ _ hword, hvalue⟩ hword', hrest⟩

theorem address_extends : Extends tail Address.read next := by
  intro t u a rest h hread hface
  obtain ⟨middle, hlabel, hnumber, href⟩ := Address.read_eq_some hread
  obtain ⟨middle', hlabel', hmiddle⟩ :=
    (isWordScan_run isVisible_of_isUpper).extends htail h hlabel faces_true
  obtain ⟨rest', hnumber', hrest⟩ :=
    numeral_extends htail (isWordScan_run isVisible_of_isDigit) hmiddle hnumber hface
  refine ⟨rest', ?_, hrest⟩
  simp [Address.read, hlabel', hnumber', href, Except.toOption]

theorem readRelative_extends : Extends tail (Factor.readRelative context) next := by
  intro t u f rest h hread hface
  obtain ⟨t₁, rows, t₂, t₃, cols, origin, ref, hr, hrows, hc, hcols, rfl, hshift, rfl⟩ :=
    Factor.readRelative_eq_some hread
  obtain ⟨u₁, hr', h₁⟩ := readMark_extends h hr (isToken_byte (by decide))
  obtain ⟨u₂, hrows', h₂⟩ := numeral_extends htail isWordScan_signed h₁ hrows faces_true
  obtain ⟨u₃, hc', h₃⟩ := readMark_extends h₂ hc (isToken_byte (by decide))
  obtain ⟨rest', hcols', hrest⟩ := numeral_extends htail isWordScan_signed h₃ hcols hface
  refine ⟨rest', ?_, hrest⟩
  simp [Factor.readRelative, hr', hrows', hc', hcols', hshift]

theorem readReference_extends : Extends tail (Factor.readReference context) next := by
  intro t u f rest h hread hface
  rcases Factor.readReference_eq_some hread with ⟨a, ha, rfl⟩ | ⟨rows, cols, ref, -, rfl, hrelative⟩
  · obtain ⟨rest', ha', hrest⟩ := address_extends htail h ha hface
    exact ⟨rest', by simp [Factor.readReference, ha'], hrest⟩
  · obtain ⟨t₁, -, -, -, -, -, -, hr, -⟩ := Factor.readRelative_eq_some hrelative
    have hnone : Address.read u = none :=
      address_read_none (faces_of_readMark hr (isToken_byte (by decide)) rfl (by decide) u h)
    obtain ⟨rest', hrelative', hrest⟩ := readRelative_extends htail h hrelative hface
    exact ⟨rest', by simp [Factor.readReference, hnone, hrelative'], hrest⟩

theorem factor_extends : Extends tail (Factor.read context) next := by
  intro t u f rest h hread hface
  simp only [Factor.read, Option.or_eq_some_iff, Option.map_eq_some_iff] at hread
  rcases hread with hread | ⟨-, ⟨n, r⟩, hn, hread⟩
  · obtain ⟨rest', hread', hrest⟩ := readReference_extends htail h hread hface
    exact ⟨rest', by simp [Factor.read, hread'], hrest⟩
  · cases hread
    have hword := (Numeral.read_eq_some hn).1
    have hsigned := isSigned_of_readWord hword
    have hnone : Factor.readReference context u = none := by
      have hbegins : Begins (fun b => isUpper b = false ∧ b ≠ byte 'r') [n.word] :=
        hsigned.begins (fun b hb => ⟨isUpper_of_isDigit hb, ne_of_class hb (by decide)⟩) (by decide)
      exact readReference_none (isWordScan_signed.faces hword (hbegins n.word rfl) u h)
    obtain ⟨rest', hn', hrest⟩ := numeral_extends htail isWordScan_signed h hn hface
    exact ⟨rest', by simp [Factor.read, hnone, hn'], hrest⟩

end Factors

section Chains

variable {next final : UInt8 → Prop} {mark : String} {item : Text → Option (α × Text)} {m : UInt8}

theorem faces_many (hstarts : ∀ t a rest, item t = some (a, rest) → Faces tail next t)
    (hface : Faces tail next (many item t).2) : Faces tail next t := by
  cases hmore : item t with
  | none => rwa [many_none hmore] at hface
  | some p => exact hstarts t p.1 p.2 hmore

/-- What is read one after the other is read so from the longer text, which may then go on. -/
theorem many_extends (hconsumes : Consumes item) (hitem : Extends tail item next)
    (hstarts : ∀ t a rest, item t = some (a, rest) → Faces tail next t) (h : Continued tail t u)
    (hface : Faces tail next (many item t).2) :
    ∃ rest', Continued tail (many item t).2 rest' ∧
      many item u = ((many item t).1 ++ (many item rest').1, (many item rest').2) := by
  induction t using many_induction hconsumes generalizing u with
  | stop t hnone =>
    rw [many_none hnone]
    exact ⟨u, h, rfl⟩
  | step t a rest hsome ih =>
    rw [many_some hconsumes hsome] at hface ⊢
    obtain ⟨middle, hread, hmiddle⟩ := hitem h hsome (faces_many hstarts hface)
    obtain ⟨rest', hrest, hmany⟩ := ih hmiddle hface
    refine ⟨rest', hrest, ?_⟩
    rw [many_some hconsumes hread, hmany]
    rfl

theorem chain_extends (hconsumes : Consumes item) (hitem : Extends tail item next)
    (hmark : IsToken (ofString mark)) (hm : (ofString mark).head? = some m) (hnext : next m)
    (hfinal : ∀ b, final b → next b ∧ b ≠ m) : Extends tail (Chain.read mark item) final := by
  intro t u c rest h hread hface
  obtain ⟨⟨a, r⟩, ha, heq⟩ := Option.map_eq_some_iff.mp hread
  cases heq
  have hstarts : ∀ t a rest, following mark item t = some (a, rest) → Faces tail next t := by
    intro t a rest hfollowing
    obtain ⟨middle, hmiddle, -⟩ := Option.bind_eq_some_iff.mp hfollowing
    exact faces_of_readMark hmiddle hmark hm hnext
  have hfollowing : Extends tail (following mark item) next := by
    intro t u a rest h hread hface
    obtain ⟨middle, hmiddle, hread⟩ := Option.bind_eq_some_iff.mp hread
    obtain ⟨middle', hmiddle', h'⟩ := readMark_extends h hmiddle hmark
    obtain ⟨rest', hread', hrest⟩ := hitem h' hread hface
    exact ⟨rest', by rw [following, hmiddle']; exact hread', hrest⟩
  have hlast := hface.mono fun b hb => (hfinal b hb).1
  obtain ⟨r', ha', hr⟩ := hitem h ha (faces_many hstarts hlast)
  obtain ⟨rest', hrest, hmany⟩ :=
    many_extends (consumes_following mark hconsumes) hfollowing hstarts hr hlast
  have hstop : readMark mark rest' = none := by
    obtain ⟨b, v, hb, -⟩ := hmark.head
    refine readMark_none ((hface rest' hrest).mono fun c hc heq => (hfinal c hc).2 ?_) (by simp [hb])
    exact Option.some.inj (heq.symm.trans hm)
  have hnone : many (following mark item) rest' = ([], rest') :=
    many_none (by rw [following, hstop]; rfl)
  rw [hnone, List.append_nil] at hmany
  exact ⟨rest', by simp [Chain.read, ha', hmany], hrest⟩

end Chains

section Programs

variable {context : Option Ref} (htail : ∀ x ∈ tail.head?, isVisible x = false)

def EndsSum (b : UInt8) : Prop := b ≠ byte '*' ∧ b ≠ byte '+'

theorem readQuoted_extends {next : UInt8 → Prop} : Extends tail readQuoted next := by
  intro t u body rest h hread _
  obtain ⟨r, hopen, hbody, hclose⟩ := readQuoted_cases hread
  obtain ⟨middle, hopen', hmiddle⟩ := readMark_extends h hopen (isToken_byte (by decide))
  obtain ⟨z, rfl, hz⟩ := hmiddle.split (by decide)
  have hquote : Continued tail (byte '"' :: r) (byte '"' :: z) := by
    obtain ⟨v, w, hv, hw, heq⟩ := hz
    exact ⟨v, w, hv, hw, congrArg (byte '"' :: ·) heq⟩
  obtain ⟨rest', hclose', hrest⟩ := readMark_extends hquote hclose (isToken_byte (by decide))
  exact ⟨rest', readQuoted_of_marks hbody hopen' hclose', hrest⟩

include htail

theorem expression_extends : Extends tail (Expression.read context) EndsSum := by
  intro t u e rest h hread hface
  simp only [Expression.read, Option.or_eq_some_iff, Option.map_eq_some_iff] at hread
  rcases hread with ⟨⟨terms, r⟩, hterms, hread⟩ | ⟨-, ⟨body, r⟩, hbody, hread⟩
  · cases hread
    have hfactor : Extends tail (Factor.read context) fun _ => True := factor_extends htail
    have hterm : Extends tail (Chain.read "*" (Factor.read context)) (· ≠ byte '*') :=
      chain_extends (consumes_factor context) hfactor (isToken_byte (by decide)) rfl trivial
        fun b hb => ⟨trivial, hb⟩
    have hsum : Extends tail (Chain.read "+" (Chain.read "*" (Factor.read context))) EndsSum :=
      chain_extends (consumes_chain "*" (consumes_factor context)) hterm
        (isToken_byte (by decide)) rfl (by decide) fun b hb => hb
    obtain ⟨rest', hterms', hrest⟩ := hsum h hterms hface
    exact ⟨rest', by simp [Expression.read, hterms'], hrest⟩
  · cases hread
    obtain ⟨_, hopen, -⟩ := readQuoted_cases hbody
    have hnone : Factor.read context u = none :=
      factor_read_none (faces_of_readMark hopen (isToken_byte (by decide)) rfl (by decide) u h)
    obtain ⟨rest', hbody', hrest⟩ := readQuoted_extends h hbody hface
    exact ⟨rest', by simp [Expression.read, Chain.read, hnone, hbody'], hrest⟩

theorem readAssignment_extends : Extends tail Statement.readAssignment EndsSum := by
  intro t u st rest h hread hface
  obtain ⟨target, t₁, t₂, e, htarget, hmark, he, rfl⟩ := Statement.readAssignment_eq_some hread
  obtain ⟨u₁, htarget', h₁⟩ := address_extends htail h htarget faces_true
  obtain ⟨u₂, hmark', h₂⟩ := readMark_extends h₁ hmark isToken_assign
  obtain ⟨rest', he', hrest⟩ := expression_extends htail h₂ he hface
  refine ⟨rest', ?_, hrest⟩
  simp [Statement.readAssignment, htarget', hmark', he']

theorem readPrint_extends (kind : ReportKind) :
    Extends tail (Statement.readPrint context kind) EndsSum := by
  intro t u st rest h hread hface
  obtain ⟨middle, e, hmark, he, rfl⟩ := Statement.readPrint_eq_some hread
  obtain ⟨middle', hmark', hmiddle⟩ := readMark_extends h hmark (isToken_keyword kind)
  obtain ⟨rest', he', hrest⟩ := expression_extends htail hmiddle he hface
  refine ⟨rest', ?_, hrest⟩
  simp [Statement.readPrint, following, hmark', he']

theorem statement_extends : Extends tail (Statement.read context) EndsSum := by
  intro t u st rest h hread hface
  have hassign {kind : ReportKind} (hprint : Statement.readPrint context kind t = some (st, rest)) :
      Statement.readAssignment u = none := by
    obtain ⟨middle, -, hmark, -⟩ := Statement.readPrint_eq_some hprint
    refine Statement.readAssignment_none ?_
    cases kind with
    | value => exact faces_of_readMark hmark (isToken_keyword .value) rfl (by decide) u h
    | expression => exact faces_of_readMark hmark (isToken_keyword .expression) rfl (by decide) u h
  simp only [Statement.read, Option.or_eq_some_iff] at hread
  rcases hread with hread | ⟨-, hread | ⟨-, hread⟩⟩
  · obtain ⟨rest', hread', hrest⟩ := readAssignment_extends htail h hread hface
    exact ⟨rest', by simp [Statement.read, hread'], hrest⟩
  · obtain ⟨rest', hread', hrest⟩ := readPrint_extends htail .value h hread hface
    exact ⟨rest', by simp [Statement.read, hassign hread, hread'], hrest⟩
  · obtain ⟨rest', hread', hrest⟩ := readPrint_extends htail .expression h hread hface
    obtain ⟨middle, -, hmark, -⟩ := Statement.readPrint_eq_some hread'
    have hvalue : Statement.readPrint context .value u = none := by
      rw [Statement.readPrint, following, readMark_value_none (trim_eq_of_readMark hmark)]
      rfl
    exact ⟨rest', by simp [Statement.read, hassign hread, hvalue, hread'], hrest⟩

omit htail in
/-- No statement begins with a mark that continues an expression. -/
theorem Statement.faces {st : Statement} (h : Statement.read context t = some (st, rest)) :
    Faces tail EndsSum t := by
  have hprint {kind : ReportKind} (h : Statement.readPrint context kind t = some (st, rest)) :
      Faces tail EndsSum t := by
    obtain ⟨middle, -, hmark, -⟩ := Statement.readPrint_eq_some h
    cases kind with
    | value => exact faces_of_readMark hmark (isToken_keyword .value) rfl ⟨by decide, by decide⟩
    | expression =>
      exact faces_of_readMark hmark (isToken_keyword .expression) rfl ⟨by decide, by decide⟩
  simp only [Statement.read, Option.or_eq_some_iff] at h
  rcases h with h | ⟨-, h | ⟨-, h⟩⟩
  · obtain ⟨target, _, _, _, htarget, -⟩ := Statement.readAssignment_eq_some h
    obtain ⟨middle, hlabel, -⟩ := Address.read_eq_some htarget
    refine (isWordScan_run isVisible_of_isUpper).faces hlabel fun b hb => ?_
    have hupper := (isRun_of_readWord hlabel).2 b (List.mem_of_mem_head? hb)
    exact ⟨ne_of_class hupper (by decide), ne_of_class hupper (by decide)⟩
  · exact hprint h
  · exact hprint h

/-- A program is read from the longer text as from the shorter one, and what is left may go on. -/
theorem readProgram_extends (h : Continued tail t u)
    (hface : Faces tail EndsSum (readProgram context t).2) :
    ∃ rest, Continued tail (readProgram context t).2 rest ∧
      readProgram context u = ((readProgram context t).1 ++ (readProgram context rest).1,
        (readProgram context rest).2) :=
  many_extends (consumes_statement context) (statement_extends htail)
    (fun _ _ _ => Statement.faces) h hface

end Programs

end Spreadsheet.Formula
