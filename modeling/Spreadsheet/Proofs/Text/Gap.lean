import Spreadsheet.Proofs.Text.Trim
import Mathlib.Tactic.IntervalCases

/-! # Gaps

A gap is a row of blanks. Trimming takes a gap from each end of a text and nothing else, whether or
not the text is UTF-8; and it takes the whole of a gap that follows a visible byte.
-/
namespace Spreadsheet

/-- The bytes of a blank are listed. -/
theorem Glyph.bytes_mem_blanks {g : Glyph} (hg : g.isBlank) : g.bytes ∈ Text.blanks := by
  cases g with
  | stray b => cases hg
  | char c =>
    have hofNat : c = Char.ofNat c.toNat := c.ofNat_toNat.symm
    simp only [isBlank, Bool.or_eq_true, Bool.and_eq_true, decide_eq_true_eq, beq_iff_eq] at hg
    generalize c.toNat = n at hg hofNat
    subst hofNat
    rcases hg with (((((((((⟨hl, hu⟩ | rfl) | rfl) | rfl) | rfl) | ⟨hl, hu⟩) | rfl) | rfl) | rfl) |
      rfl) | rfl
    · interval_cases n <;> decide
    · decide
    · decide
    · decide
    · decide
    · interval_cases n <;> decide
    · decide
    · decide
    · decide
    · decide
    · decide

/-- The blank characters, in the order in which their encodings are listed. -/
def Text.blankChars : List Char :=
  [' ', '\n', '\t', '\r', '\x0B', '\x0C', '\u0085', '\u00A0', '\u1680', '\u2000', '\u2001',
    '\u2002', '\u2003', '\u2004', '\u2005', '\u2006', '\u2007', '\u2008', '\u2009', '\u200A',
    '\u2028', '\u2029', '\u202F', '\u205F', '\u3000']

theorem Text.blanks_eq : Text.blanks = Text.blankChars.map fun c => (Glyph.char c).bytes := by
  decide

/-- Every word in the list of blanks is the encoding of one. -/
theorem Glyph.exists_of_mem_blanks {w : Text} (hw : w ∈ Text.blanks) :
    ∃ g : Glyph, g.isBlank ∧ g.bytes = w := by
  have hall : Text.blankChars.all (fun c => (Glyph.char c).isBlank) := by decide
  rw [Text.blanks_eq] at hw
  obtain ⟨c, hc, rfl⟩ := List.mem_map.mp hw
  exact ⟨.char c, List.all_eq_true.mp hall c hc, rfl⟩

namespace Text

theorem isBlank_of_mem_blanks : ∀ w ∈ blanks, isBlank w := by decide +kernel

/-- The encoding of any number of blanks. -/
def IsGap (w : Text) : Prop :=
  ∃ gap : List Glyph, (∀ g ∈ gap, g.isBlank) ∧ w = gap.flatMap Glyph.bytes

namespace IsGap

variable {v w : Text}

theorem nil : IsGap [] := ⟨[], by simp, rfl⟩

theorem append (hv : IsGap v) (hw : IsGap w) : IsGap (v ++ w) := by
  obtain ⟨gs, hgs, rfl⟩ := hv
  obtain ⟨hs, hhs, rfl⟩ := hw
  refine ⟨gs ++ hs, fun g hg => ?_, List.flatMap_append.symm⟩
  rcases List.mem_append.mp hg with hg | hg
  · exact hgs g hg
  · exact hhs g hg

theorem of_mem_blanks (hw : w ∈ blanks) : IsGap w := by
  obtain ⟨g, hg, rfl⟩ := Glyph.exists_of_mem_blanks hw
  exact ⟨[g], by simpa using hg, by simp⟩

theorem flatten {vs : List Text} (hvs : ∀ v ∈ vs, v ∈ blanks) : IsGap vs.flatten := by
  induction vs with
  | nil => exact nil
  | cons v vs ih =>
    have hv := of_mem_blanks (hvs v List.mem_cons_self)
    exact hv.append (ih fun w hw => hvs w (List.mem_cons_of_mem v hw))

theorem isBlank (hw : IsGap w) : isBlank w := by
  obtain ⟨gap, hgap, rfl⟩ := hw
  induction gap with
  | nil => rfl
  | cons g gs ih =>
    have hg := isBlank_of_mem_blanks _ (Glyph.bytes_mem_blanks (hgap g (by simp)))
    rw [List.flatMap_cons, Text.isBlank, trimStart_blank_append hg]
    exact ih fun x hx => hgap x (by simp [hx])

theorem not_visible (hw : IsGap w) : ∀ b ∈ w, isVisible b = false := by
  obtain ⟨gap, hgap, rfl⟩ := hw
  intro b hb
  obtain ⟨g, hg, hb⟩ := List.mem_flatMap.mp hb
  exact blanks_not_visible _ (Glyph.bytes_mem_blanks (hgap g hg)) b hb

end IsGap

section Drop

variable {ws vs : List Text} {t : Text}

/-- What is dropped from a text, after the bytes that are skipped, is words of the list. -/
theorem exists_dropWords (ws : List Text) {k : Nat} {t : Text} (hk : k ≤ t.length) :
    ∃ vs : List Text, (∀ v ∈ vs, v ∈ ws) ∧ t = t.take k ++ (vs.flatten ++ dropWords ws k t) := by
  induction t generalizing k with
  | nil => exact ⟨[], by simp, by simp [dropWords]⟩
  | cons b r ih =>
    cases k with
    | succ k =>
      obtain ⟨vs, hvs, hr⟩ := ih (Nat.le_of_succ_le_succ hk)
      exact ⟨vs, hvs, congrArg (b :: ·) hr⟩
    | zero =>
      cases hwidth : startWidth ws (b :: r) with
      | zero => exact ⟨[], by simp, by simp [dropWords, hwidth]⟩
      | succ k =>
        obtain ⟨w, hw, hpre, hlen⟩ := exists_word_of_startWidth hwidth
        have hle : k ≤ r.length := by
          have := hpre.length_le
          simp only [List.length_cons] at this
          omega
        obtain ⟨vs, hvs, hr⟩ := ih hle
        have hword : b :: r.take k = w := by
          rw [List.prefix_iff_eq_take.mp hpre, hlen]
          rfl
        refine ⟨w :: vs, ?_, ?_⟩
        · simpa [hw] using hvs
        · rw [List.take_zero, List.nil_append, List.flatten_cons, ← hword]
          simp only [dropWords, hwidth]
          simpa using hr

theorem dropWords_skip (ws : List Text) (v t : Text) :
    dropWords ws v.length (v ++ t) = dropWords ws 0 t := by
  induction v with
  | nil => rfl
  | cons b v ih => exact ih

/-- Words of a list that has none of them at the start of another are all dropped. -/
theorem dropWords_flatten_append (hfree : PrefixFree ws) (hne : [] ∉ ws)
    (hvs : ∀ v ∈ vs, v ∈ ws) (t : Text) :
    dropWords ws 0 (vs.flatten ++ t) = dropWords ws 0 t := by
  induction vs with
  | nil => rfl
  | cons v vs ih =>
    have hv := hvs v List.mem_cons_self
    rw [← ih fun w hw => hvs w (List.mem_cons_of_mem v hw), List.flatten_cons, List.append_assoc]
    generalize vs.flatten ++ t = u
    cases v with
    | nil => exact absurd hv hne
    | cons b v =>
      have hwidth := startWidth_of_prefix hfree hv (List.prefix_append (b :: v) u)
      rw [List.cons_append] at hwidth ⊢
      rw [dropWords, hwidth]
      exact dropWords_skip ws v u

end Drop

section Ends

variable {t b w : Text}

theorem exists_trimStart (t : Text) : ∃ w, IsGap w ∧ t = w ++ trimStart t := by
  obtain ⟨vs, hvs, ht⟩ := exists_dropWords blanks (Nat.zero_le t.length)
  exact ⟨vs.flatten, .flatten hvs, by simpa [trimStart] using ht⟩

theorem exists_trimEnd (t : Text) : ∃ w, IsGap w ∧ t = trimEnd t ++ w := by
  unfold trimEnd
  split
  · obtain ⟨vs, hvs, ht⟩ := exists_dropWords (blanks.map List.reverse) (Nat.zero_le t.reverse.length)
    refine ⟨vs.flatten.reverse, ?_, ?_⟩
    · rw [List.reverse_flatten]
      refine .flatten fun v hv => ?_
      rw [List.mem_reverse, List.mem_map] at hv
      obtain ⟨u, hu, rfl⟩ := hv
      obtain ⟨w, hw, rfl⟩ := List.mem_map.mp (hvs u hu)
      rwa [List.reverse_reverse]
    · rw [← List.reverse_append, ← List.reverse_inj, List.reverse_reverse]
      simpa using ht
  · exact ⟨[], .nil, (List.append_nil t).symm⟩

/-- Trimming takes a gap from each end. -/
theorem exists_trim (t : Text) : ∃ v w, IsGap v ∧ IsGap w ∧ t = v ++ (trim t ++ w) := by
  obtain ⟨v, hv, hstart⟩ := exists_trimStart t
  obtain ⟨w, hw, hend⟩ := exists_trimEnd (trimStart t)
  exact ⟨v, w, hv, hw, by rw [trim, ← hend, ← hstart]⟩

theorem endsBlank_of_suffix (hw : w ∈ blanks) (t : Text) : endsBlank (t ++ w) := by
  induction t with
  | nil =>
    revert w
    decide
  | cons b t ih => simp [endsBlank, ih]

/-- The encodings of blanks can be told apart from their ends as well. -/
theorem reversed_prefix_free : PrefixFree (blanks.map List.reverse) := by
  unfold PrefixFree
  decide

theorem dropWords_reversed {gap : List Glyph} (hgap : ∀ g ∈ gap, g.isBlank) (t : Text) :
    dropWords (blanks.map List.reverse) 0 (t ++ gap.flatMap Glyph.bytes).reverse =
      dropWords (blanks.map List.reverse) 0 t.reverse := by
  have hwords : (gap.flatMap Glyph.bytes).reverse =
      ((gap.map Glyph.bytes).map List.reverse).reverse.flatten := by
    rw [List.flatMap_def, List.reverse_flatten]
  rw [List.reverse_append, hwords]
  refine dropWords_flatten_append reversed_prefix_free (by decide) (fun v hv => ?_) t.reverse
  rw [List.mem_reverse, List.map_map] at hv
  obtain ⟨g, hg, rfl⟩ := List.mem_map.mp hv
  exact List.mem_map.mpr ⟨g.bytes, Glyph.bytes_mem_blanks (hgap g hg), rfl⟩

/-- Trimming the end takes a gap there as a whole, and then the blanks before it. -/
theorem trimEnd_append_gap (hw : IsGap w) (t : Text) : trimEnd (t ++ w) = trimEnd t := by
  obtain ⟨gap, hgap, rfl⟩ := hw
  rcases List.eq_nil_or_concat' gap with rfl | ⟨gs, g, rfl⟩
  · simp
  · have hends : endsBlank (t ++ (gs ++ [g]).flatMap Glyph.bytes) := by
      have hg := Glyph.bytes_mem_blanks (hgap g (by simp))
      simpa using endsBlank_of_suffix hg (t ++ gs.flatMap Glyph.bytes)
    rw [trimEnd, if_pos hends, dropWords_reversed hgap, trimEnd]
    split
    · rfl
    · next hnot =>
      rw [dropWords_of_startWidth, List.reverse_reverse]
      by_contra hne
      obtain ⟨k, hk⟩ := Nat.exists_eq_succ_of_ne_zero hne
      obtain ⟨v, hv, hpre, -⟩ := exists_word_of_startWidth hk
      obtain ⟨u, hu, rfl⟩ := List.mem_map.mp hv
      obtain ⟨x, rfl⟩ := List.reverse_prefix.mp hpre
      exact hnot (endsBlank_of_suffix hu x)

/-- No blank begins with a byte that stands inside one. -/
theorem blanks_head_ne : ∀ v ∈ blanks, ∀ b ∈ v.tail, ∀ w ∈ blanks, w.head? ≠ some b := by
  decide +kernel

theorem IsGap.exists_head (hw : IsGap w) {b : UInt8} (hb : b ∈ w.head?) :
    ∃ v ∈ blanks, v.head? = some b := by
  obtain ⟨gap, hgap, rfl⟩ := hw
  cases gap with
  | nil => cases hb
  | cons g gs =>
    have hg := Glyph.bytes_mem_blanks (hgap g List.mem_cons_self)
    refine ⟨g.bytes, hg, ?_⟩
    rwa [List.flatMap_cons, List.head?_append_of_ne_nil _ (blanks_ne_nil _ hg)] at hb

/-- A gap does not complete what a text could begin a blank with. -/
theorem startWidth_append_gap (hstart : startWidth blanks t = 0) (hne : t ≠ []) (hw : IsGap w) :
    startWidth blanks (t ++ w) = 0 := by
  by_contra hwidth
  obtain ⟨k, hk⟩ := Nat.exists_eq_succ_of_ne_zero hwidth
  obtain ⟨v, hv, ⟨s, hs⟩, -⟩ := exists_word_of_startWidth hk
  have hnot : ¬ v <+: t := by
    intro hpre
    rw [ startWidth_of_prefix blanks_prefix_free hv hpre] at hstart
    exact blanks_ne_nil v hv (List.length_eq_zero_iff.mp hstart)
  rcases List.append_eq_append_iff.mp hs with ⟨a, ha, -⟩ | ⟨a, ha, hrest⟩
  · exact hnot ⟨a, ha.symm⟩
  · cases a with
    | nil => exact hnot ⟨[], by simpa using ha⟩
    | cons b a =>
      obtain ⟨u, hu, hhead⟩ := hw.exists_head (b := b) (by rw [hrest]; rfl)
      refine blanks_head_ne v hv b ?_ u hu hhead
      rw [ha, List.tail_append_of_ne_nil hne]
      simp

/-- Trimming does not notice a gap at the end. -/
theorem trim_append_gap (hw : IsGap w) (t : Text) : trim (t ++ w) = trim t := by
  obtain ⟨v, hv, ht⟩ := exists_trimStart t
  have hstart : trimStart (t ++ w) = trimStart (trimStart t ++ w) := by
    nth_rewrite 1 [ht]
    rw [List.append_assoc, trimStart_blank_append hv.isBlank]
  by_cases hnil : trimStart t = []
  · rw [trim, trim, hstart, hnil, List.nil_append, List.isEmpty_iff.mp hw.isBlank]
  · have hkeep := startWidth_append_gap (startWidth_trimStart t) hnil hw
    rw [trim, trim, hstart, trimStart, dropWords_of_startWidth hkeep, trimEnd_append_gap hw]

theorem IsGap.trim_eq (hw : IsGap w) : trim w = [] := by
  rw [trim, List.isEmpty_iff.mp hw.isBlank]
  rfl

theorem isGap_of_trim_eq (h : trim t = []) : IsGap t := by
  obtain ⟨v, w, hv, hw, ht⟩ := exists_trim t
  rw [h, List.nil_append] at ht
  exact ht ▸ hv.append hw

/-- A text of blanks only is a gap. -/
theorem isGap_of_isBlank (hb : isBlank b) : IsGap b := by
  obtain ⟨w, hw, heq⟩ := exists_trimStart b
  rw [List.isEmpty_iff.mp hb, List.append_nil] at heq
  exact heq ▸ hw

theorem isEmpty_trim (t : Text) : (trim t).isEmpty = isBlank t := by
  rw [Bool.eq_iff_iff, List.isEmpty_iff]
  exact ⟨fun h => (isGap_of_trim_eq h).isBlank, fun h => (isGap_of_isBlank h).trim_eq⟩

end Ends

end Text
end Spreadsheet
