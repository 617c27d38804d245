import Mathlib.Data.List.Forall2
import Spreadsheet.Proofs.Text.Words
import Spreadsheet.Viewer.Wrap

/-! # Wrapped text

A line holds one or more words with a space between any two of them, and fits into the width. The
words of all lines are those of the text in order, where words too long for a line are cut. A line
that holds such words and fits is not wrapped any further, so wrapping a second time changes
nothing.
-/
namespace Spreadsheet.Wrap

open Text

section Spaced

variable {w : List Glyph} {ws : List (List Glyph)}

def spaced : List (List Glyph) → List Glyph
  | [] => []
  | [w] => w
  | w :: v :: ws => w ++ .char ' ' :: spaced (v :: ws)

theorem spaced_append {vs : List (List Glyph)} (hvs : vs ≠ []) (hws : ws ≠ []) :
    spaced (vs ++ ws) = spaced vs ++ .char ' ' :: spaced ws := by
  induction vs with
  | nil => exact absurd rfl hvs
  | cons v vs ih =>
    cases vs with
    | nil =>
      obtain ⟨w, ws, rfl⟩ := List.exists_cons_of_ne_nil hws
      rfl
    | cons u vs =>
      have htail := ih (List.cons_ne_nil u vs)
      rw [List.cons_append] at htail
      rw [List.cons_append, List.cons_append, spaced, htail, spaced, List.append_assoc,
        List.cons_append]

theorem length_spaced_le_append (vs ws : List (List Glyph)) :
    (spaced vs).length ≤ (spaced (vs ++ ws)).length := by
  by_cases hvs : vs = []
  · simp [hvs, spaced]
  by_cases hws : ws = []
  · simp [hws]
  · rw [spaced_append hvs hws, List.length_append]
    omega

theorem spaced_ne_nil (hws : ∀ w ∈ ws, IsWord w) (hne : ws ≠ []) : spaced ws ≠ [] := by
  match ws with
  | [] => exact absurd rfl hne
  | [w] => exact (hws w List.mem_cons_self).ne_nil
  | w :: v :: ws => simp [spaced]

theorem legible_spaced (hws : ∀ w ∈ ws, Legible w) : Legible (spaced ws) := by
  induction ws with
  | nil => exact legible_nil
  | cons w ws ih =>
    obtain ⟨hw, hrest⟩ := List.forall_mem_cons.mp hws
    cases ws with
    | nil => exact hw
    | cons v ws => exact hw.append_space (ih hrest)

theorem wordsOf_spaced (hws : ∀ w ∈ ws, IsWord w) : wordsOf (spaced ws) = ws := by
  induction ws with
  | nil => rfl
  | cons w ws ih =>
    obtain ⟨hw, hrest⟩ := List.forall_mem_cons.mp hws
    cases ws with
    | nil => exact hw.wordsOf_eq
    | cons v ws =>
      rw [spaced, wordsOf_append_blank (by decide), hw.wordsOf_eq, ih hrest, List.singleton_append]

theorem mem_spaced {g : Glyph} (hg : g ∈ spaced ws) : g = .char ' ' ∨ ∃ w ∈ ws, g ∈ w := by
  induction ws with
  | nil => cases hg
  | cons w ws ih =>
    cases ws with
    | nil => exact .inr ⟨w, List.mem_cons_self, hg⟩
    | cons v ws =>
      rw [spaced, List.mem_append, List.mem_cons] at hg
      rcases hg with hg | rfl | hg
      · exact .inr ⟨w, List.mem_cons_self, hg⟩
      · exact .inl rfl
      · obtain rfl | ⟨u, hu, hg⟩ := ih hg
        · exact .inl rfl
        · exact .inr ⟨u, List.mem_cons_of_mem w hu, hg⟩

end Spaced

section Cut

variable {n : Nat} {w : List Glyph}

theorem flatten_pieces (n : Nat) (w : List Glyph) :
    (pieces n w).flatten = w.map (.char ·.toChar) := by
  fun_induction pieces n w with
  | case1 w h ih => rw [List.flatten_cons, ih, ← List.map_append, List.take_append_drop]
  | case2 w h => simp

/-- A piece has at most as many glyphs as a line, and a word gives no empty piece. -/
theorem mem_pieces (hn : 0 < n) (hw : w ≠ []) {p : List Glyph} (hp : p ∈ pieces n w) :
    p ≠ [] ∧ p.length ≤ n := by
  fun_induction pieces n w with
  | case1 w h ih =>
    rcases List.mem_cons.mp hp with rfl | hp
    · simp [hw]
      omega
    · exact ih (by simp; omega) hp
  | case2 w h =>
    rw [List.mem_singleton.mp hp]
    simp [hw]
    omega

theorem isBlank_of_mem_pieces (hw : ∀ g ∈ w, g.isBlank = false) {p : List Glyph}
    (hp : p ∈ pieces n w) : ∀ g ∈ p, g.isBlank = false := by
  intro g hg
  have hflat : g ∈ (pieces n w).flatten := List.mem_flatten.mpr ⟨p, hp, hg⟩
  rw [flatten_pieces] at hflat
  obtain ⟨h, hh, rfl⟩ := List.mem_map.mp hflat
  cases h with
  | char c => exact hw _ hh
  | stray b => exact (by decide : (Glyph.char Glyph.replacement).isBlank = false)

theorem pieces_ne_nil (n : Nat) (w : List Glyph) : pieces n w ≠ [] := by
  rw [pieces]
  split <;> exact List.cons_ne_nil _ _

/-- A word as it comes onto lines: a long one in pieces. -/
def cut (n : Nat) (w : List Glyph) : List (List Glyph) := if w.length ≤ n then [w] else pieces n w

theorem cut_ne_nil (n : Nat) (w : List Glyph) : cut n w ≠ [] := by
  unfold cut
  split
  · exact List.cons_ne_nil _ _
  · exact pieces_ne_nil n w

theorem length_of_mem_cut (hn : 0 < n) (hw : IsWord w) {p : List Glyph} (hp : p ∈ cut n w) :
    p.length ≤ n := by
  unfold cut at hp
  split at hp
  · next h => rwa [List.mem_singleton.mp hp]
  · exact (mem_pieces hn hw.ne_nil hp).2

theorem isWord_of_mem_cut (hn : 0 < n) (hw : IsWord w) {p : List Glyph} (hp : p ∈ cut n w) :
    IsWord p := by
  unfold cut at hp
  split at hp
  · rwa [List.mem_singleton.mp hp]
  · exact ⟨(mem_pieces hn hw.ne_nil hp).1, isBlank_of_mem_pieces hw.solid hp⟩

/-- Pieces have no stray bytes. -/
theorem legible_of_mem_cut (hw : Legible w) {p : List Glyph} (hp : p ∈ cut n w) : Legible p := by
  unfold cut at hp
  split at hp
  · rwa [List.mem_singleton.mp hp]
  · refine legible_of_stray_not_mem fun b hb => ?_
    have hflat : Glyph.stray b ∈ (pieces n w).flatten := List.mem_flatten.mpr ⟨p, hp, hb⟩
    rw [flatten_pieces] at hflat
    obtain ⟨g, -, hg⟩ := List.mem_map.mp hflat
    cases hg

/-- Cutting loses no character. -/
theorem flatten_cut (hw : ∀ b, Glyph.stray b ∉ w) : (cut n w).flatten = w := by
  unfold cut
  split
  · simp
  · rw [flatten_pieces]
    refine (List.map_congr_left fun g hg => ?_).trans (List.map_id w)
    cases g with
    | char c => rfl
    | stray b => exact absurd hg (hw b)

theorem flatten_flatMap_cut {words : List (List Glyph)}
    (hwords : ∀ w ∈ words, ∀ b, Glyph.stray b ∉ w) :
    (words.flatMap (cut n)).flatten = words.flatten := by
  rw [List.flatMap_def, List.flatten_flatten, List.map_map]
  refine congrArg List.flatten ((List.map_congr_left fun w hw => ?_).trans (List.map_id words))
  exact flatten_cut (hwords w hw)

end Cut

section Pack

variable {n : Nat} {line words : List (List Glyph)} {ks ls : List (List Glyph)}

/-- Words that fit on one line, together with the spaces between them. -/
structure Fits (n : Nat) (line : List (List Glyph)) : Prop where
  words : ∀ w ∈ line, IsWord w
  length : (spaced line).length ≤ n

/-- Lines that hold the given words in order, one or more of them each. -/
def Holds (n : Nat) (lines words : List (List Glyph)) : Prop :=
  ∃ groups : List (List (List Glyph)), lines = groups.map spaced ∧ groups.flatten = words ∧
    ∀ line ∈ groups, line ≠ [] ∧ Fits n line

namespace Holds

theorem nil : Holds n [] [] := ⟨[], rfl, rfl, by simp⟩

theorem singleton (hne : line ≠ []) (hline : Fits n line) : Holds n [spaced line] line :=
  ⟨[line], rfl, by simp, by simp [hne, hline]⟩

theorem append {vs ws : List (List Glyph)} (hks : Holds n ks vs) (hls : Holds n ls ws) :
    Holds n (ks ++ ls) (vs ++ ws) := by
  obtain ⟨gs, rfl, rfl, hgs⟩ := hks
  obtain ⟨hs, rfl, rfl, hhs⟩ := hls
  refine ⟨gs ++ hs, List.map_append.symm, List.flatten_append, fun line hmem => ?_⟩
  rcases List.mem_append.mp hmem with hmem | hmem
  · exact hgs line hmem
  · exact hhs line hmem

/-- Each word on a line of its own. -/
theorem apart (hwords : ∀ w ∈ words, IsWord w ∧ w.length ≤ n) : Holds n words words := by
  induction words with
  | nil => exact nil
  | cons w words ih =>
    obtain ⟨⟨hw, hlength⟩, hrest⟩ := List.forall_mem_cons.mp hwords
    have hfits : Fits n [w] := ⟨by simpa using hw, hlength⟩
    exact (singleton (List.cons_ne_nil w []) hfits).append (ih hrest)

end Holds

theorem isEmpty_spaced (h : ∀ w ∈ line, IsWord w) : (spaced line).isEmpty = line.isEmpty := by
  cases line with
  | nil => rfl
  | cons w ws =>
    rw [List.isEmpty_eq_false_iff.mpr (spaced_ne_nil h (List.cons_ne_nil w ws))]
    rfl

/-- A line that is given out unless it is empty. -/
theorem Fits.holds (h : Fits n line) :
    Holds n (if (spaced line).isEmpty then [] else [spaced line]) line := by
  rw [isEmpty_spaced h.words]
  cases line with
  | nil => exact .nil
  | cons w ws => exact .singleton (List.cons_ne_nil w ws) h

/-- Packing fills lines with the words, cut where they are too long. -/
theorem holds_pack (hn : 0 < n) (hline : Fits n line) (hwords : ∀ w ∈ words, IsWord w) :
    Holds n (pack n (spaced line) words) (line ++ words.flatMap (cut n)) := by
  induction words generalizing line with
  | nil =>
    rw [pack, List.flatMap_nil, List.append_nil]
    exact hline.holds
  | cons w words ih =>
    obtain ⟨hw, hrest⟩ := List.forall_mem_cons.mp hwords
    have hnext {v : List Glyph} (hv : IsWord v ∧ v.length ≤ n) :
        Holds n (pack n v words) (v :: words.flatMap (cut n)) := by
      have hfits : Fits n [v] := ⟨by simpa using hv.1, hv.2⟩
      exact ih hfits hrest
    rw [pack, List.flatMap_cons]
    split
    · next hshort =>
      rw [cut, if_pos hshort, isEmpty_spaced hline.words, List.singleton_append]
      split
      · next hempty =>
        rw [List.isEmpty_iff.mp hempty, List.nil_append]
        exact hnext ⟨hw, hshort⟩
      · next hne =>
        have hne' : line ≠ [] := fun h => hne (List.isEmpty_iff.mpr h)
        split
        · next hroom =>
          -- The word joins the line.
          have hfits : Fits n (line ++ [w]) := by
            refine ⟨List.forall_mem_append.mpr ⟨hline.words, by simpa using hw⟩, ?_⟩
            rw [spaced_append hne' (List.cons_ne_nil w []), List.length_append, List.length_cons,
              spaced]
            omega
          have hjoined := ih hfits hrest
          rwa [spaced_append hne' (List.cons_ne_nil w []), ← List.append_cons] at hjoined
        · exact (Holds.singleton hne' hline).append (hnext ⟨hw, hshort⟩)
    · next hlong =>
      -- The last piece goes on as a word of the next line.
      have hpieces : (pieces n w).dropLast ++ [(pieces n w).getLast?.getD []] = pieces n w := by
        rw [List.getLast?_eq_some_getLast (pieces_ne_nil n w)]
        exact List.dropLast_append_getLast _
      have hmem : ∀ p ∈ pieces n w, IsWord p ∧ p.length ≤ n := fun p hp => by
        have hcut : p ∈ cut n w := by rwa [cut, if_neg hlong]
        exact ⟨isWord_of_mem_cut hn hw hcut, length_of_mem_cut hn hw hcut⟩
      have hlast := hmem ((pieces n w).getLast?.getD []) (by rw [← hpieces]; simp)
      have hfull : Holds n (pieces n w).dropLast (pieces n w).dropLast :=
        .apart fun p hp => hmem p ((List.dropLast_sublist _).subset hp)
      have hall := (hline.holds.append hfull).append (hnext hlast)
      rw [List.append_assoc line, List.append_cons (pieces n w).dropLast, hpieces] at hall
      rwa [cut, if_neg hlong]

/-- Words that fit on one line are packed onto one line. -/
theorem pack_of_fits (hne : line ≠ []) (h : Fits n (line ++ words)) :
    pack n (spaced line) words = [spaced (line ++ words)] := by
  have hempty : (spaced line).isEmpty = false :=
    List.isEmpty_eq_false_iff.mpr (spaced_ne_nil (List.forall_mem_append.mp h.words).1 hne)
  induction words generalizing line with
  | nil => simp [pack, hempty]
  | cons w words ih =>
    have happend : spaced (line ++ [w]) = spaced line ++ .char ' ' :: w :=
      spaced_append hne (List.cons_ne_nil w [])
    rw [List.append_cons] at h
    have hroom := Nat.le_trans (length_spaced_le_append (line ++ [w]) words) h.length
    rw [happend, List.length_append, List.length_cons] at hroom
    rw [pack, if_pos (by omega), hempty, if_neg (by simp), if_pos (by omega), ← happend,
      ih (by simp) h (by simp [happend]), ← List.append_cons]

end Pack

section Lines

variable {n : Nat} {ws : List (List Glyph)} {t : Text}

def lineText (ws : List (List Glyph)) : Text := ofGlyphs (spaced ws)

/-- The words of a line, none for an empty one, which can be read again from its text. -/
structure IsLine (n : Nat) (ws : List (List Glyph)) : Prop extends Fits n ws where
  legible : ∀ w ∈ ws, Legible w

namespace IsLine

variable (h : IsLine n ws)

include h

theorem glyphs_lineText : (lineText ws).glyphs = spaced ws := legible_spaced h.legible

theorem words_lineText : (lineText ws).words = ws := by
  rw [Text.words, h.glyphs_lineText, wordsOf_spaced h.words]

theorem lineText_ne_nil (hne : ws ≠ []) : lineText ws ≠ [] := by
  intro hnil
  have hglyphs := h.glyphs_lineText
  rw [hnil] at hglyphs
  exact spaced_ne_nil h.words hne hglyphs.symm

theorem newline_not_mem : newline ∉ lineText ws := by
  intro hmem
  have hglyph := newline_mem_glyphs hmem
  rw [h.glyphs_lineText] at hglyph
  rcases mem_spaced hglyph with heq | ⟨w, hw, hg⟩
  · exact absurd heq (by decide)
  · exact absurd ((h.words w hw).solid _ hg) (by decide)

/-- A line is a paragraph that stays as it is. -/
theorem paragraph_lineText : paragraph n (lineText ws) = [lineText ws] := by
  rw [paragraph, h.words_lineText]
  cases ws with
  | nil => rfl
  | cons w ws =>
    have hpack : pack n w ws = [spaced (w :: ws)] :=
      pack_of_fits (List.cons_ne_nil w []) h.toFits
    have hnext : pack n [] (w :: ws) = pack n w ws := by
      have hlength : w.length ≤ n := Nat.le_trans (length_spaced_le_append [w] ws) h.length
      rw [pack, if_pos hlength]
      rfl
    change (pack n [] (w :: ws)).map ofGlyphs = _
    rw [hnext, hpack]
    rfl

end IsLine

/-- The lines of a paragraph: one without words if it has none, else lines with words. -/
theorem exists_paragraph (hn : 0 < n) (t : Text) :
    ∃ groups : List (List (List Glyph)), paragraph n t = groups.map lineText ∧
      groups.flatten = t.words.flatMap (cut n) ∧ (∀ ws ∈ groups, IsLine n ws) ∧ groups ≠ [] ∧
      (t.words = [] → groups = [[]]) ∧ (t.words ≠ [] → [] ∉ groups) := by
  have hwords (w : List Glyph) (hw : w ∈ t.words) : IsWord w ∧ Legible w :=
    ⟨(mem_wordsOf hw).1, legible_of_mem_words hw⟩
  rw [paragraph]
  generalize t.words = words at hwords
  cases words with
  | nil =>
    refine ⟨[[]], rfl, rfl, ?_, List.cons_ne_nil _ _, fun _ => rfl, fun h => absurd rfl h⟩
    rw [List.forall_mem_singleton]
    exact ⟨⟨by simp, Nat.zero_le n⟩, by simp⟩
  | cons w words =>
    obtain ⟨groups, hpack, hflatten, hgroups⟩ :=
      holds_pack hn (⟨by simp, Nat.zero_le n⟩ : Fits n []) fun w hw => (hwords w hw).1
    refine ⟨groups, ?_, hflatten, fun ws hws => ?_, ?_, fun h => absurd h (List.cons_ne_nil _ _),
      fun _ hnil => (hgroups [] hnil).1 rfl⟩
    · change (pack n (spaced []) (w :: words)).map ofGlyphs = _
      rw [hpack, List.map_map]
      rfl
    · refine ⟨(hgroups ws hws).2, fun v hv => ?_⟩
      have hcut : v ∈ (w :: words).flatMap (cut n) := by
        rw [← List.nil_append (List.flatMap ..), ← hflatten]
        exact List.mem_flatten.mpr ⟨ws, hws, hv⟩
      obtain ⟨u, hu, hv⟩ := List.mem_flatMap.mp hcut
      exact legible_of_mem_cut (hwords u hu).2 hv
    · rintro rfl
      rw [List.nil_append, List.flatMap_cons] at hflatten
      exact cut_ne_nil n w (List.append_eq_nil_iff.mp hflatten.symm).1

theorem wrap_eq {width : Int64} (hwidth : 2 < width) (t : Text) :
    wrap width t = t.lines.flatMap (paragraph width.toInt.toNat) := by
  rw [wrap, if_neg]
  rw [Int64.le_iff_toInt_le, Int.not_le]
  exact Int64.lt_iff_toInt_lt.mp hwidth

theorem width_pos {width : Int64} (hwidth : 2 < width) : 0 < width.toInt.toNat := by
  have htwo : 2 < width.toInt := Int64.lt_iff_toInt_lt.mp hwidth
  omega

/-- The lines of a text hold its words, cut where they are too long. -/
theorem exists_wrap {width : Int64} (hwidth : 2 < width) (t : Text) :
    ∃ groups : List (List (List Glyph)), wrap width t = groups.map lineText ∧
      groups.flatten = t.words.flatMap (cut width.toInt.toNat) ∧ groups ≠ [] ∧
      ∀ ws ∈ groups, IsLine width.toInt.toNat ws := by
  have hlines (ls : List Text) : ∃ groups : List (List (List Glyph)),
      ls.flatMap (paragraph width.toInt.toNat) = groups.map lineText ∧
      groups.flatten = (ls.flatMap Text.words).flatMap (cut width.toInt.toNat) ∧
      (ls ≠ [] → groups ≠ []) ∧ ∀ ws ∈ groups, IsLine width.toInt.toNat ws := by
    induction ls with
    | nil => exact ⟨[], rfl, rfl, fun h => absurd rfl h, by simp⟩
    | cons l ls ih =>
      obtain ⟨gs, hgs, hflatten, hall, hne, -⟩ := exists_paragraph (width_pos hwidth) l
      obtain ⟨hs, hhs, hflatten', -, hall'⟩ := ih
      refine ⟨gs ++ hs, ?_, ?_, ?_, ?_⟩
      · rw [List.flatMap_cons, hgs, hhs, List.map_append]
      · rw [List.flatten_append, hflatten, hflatten', List.flatMap_cons, List.flatMap_append]
      · exact fun _ => List.append_ne_nil_of_left_ne_nil hne hs
      · exact List.forall_mem_append.mpr ⟨hall, hall'⟩
  obtain ⟨groups, hgroups, hflatten, hne, hall⟩ := hlines t.lines
  rw [words_lines] at hflatten
  exact ⟨groups, (wrap_eq hwidth t).trans hgroups, hflatten, hne (lines_ne_nil t), hall⟩

/-- Lines are paragraphs that are not wrapped any further. -/
theorem wrap_joinWith {width : Int64} (hwidth : 2 < width) {groups : List (List (List Glyph))}
    (hne : groups ≠ []) (hgroups : ∀ ws ∈ groups, IsLine width.toInt.toNat ws) :
    wrap width (joinWith [newline] (groups.map lineText)) = groups.map lineText := by
  have hlines : lines (joinWith [newline] (groups.map lineText)) = groups.map lineText := by
    refine lines_joinWith (by simpa using hne) fun l hl => ?_
    obtain ⟨ws, hws, rfl⟩ := List.mem_map.mp hl
    exact (hgroups ws hws).newline_not_mem
  rw [wrap_eq hwidth, hlines, List.flatMap_map,
    List.flatMap_congr fun ws hws => (hgroups ws hws).paragraph_lineText]
  exact List.map_eq_flatMap.symm

def visible (t : Text) : Text := ofGlyphs (t.glyphs.filter fun g => !g.isBlank)

theorem visible_eq (t : Text) : visible t = ofGlyphs t.words.flatten := by
  rw [visible, words, flatten_wordsOf]

/-- Lines of UTF-8 one after the other show the glyphs of their words. -/
theorem visible_flatten {groups : List (List (List Glyph))} (hwords : ∀ ws ∈ groups, ∀ w ∈ ws, IsWord w)
    (hutf8 : ∀ ws ∈ groups, ∀ w ∈ ws, ∀ b, Glyph.stray b ∉ w) :
    visible (groups.map lineText).flatten = ofGlyphs groups.flatten.flatten := by
  have hbytes : (groups.map lineText).flatten = ofGlyphs (groups.flatMap spaced) := by
    rw [← List.flatMap_def, ofGlyphs, List.flatMap_assoc]
    rfl
  have hlegible : Legible (groups.flatMap spaced) := by
    refine legible_of_stray_not_mem fun b hb => ?_
    obtain ⟨ws, hws, hb⟩ := List.mem_flatMap.mp hb
    rcases mem_spaced hb with hspace | ⟨w, hw, hb⟩
    · cases hspace
    · exact hutf8 ws hws w hw b hb
  have hspaced (ws : List (List Glyph)) (hws : ws ∈ groups) :
      ((spaced ws).filter fun g => !g.isBlank) = ws.flatten := by
    rw [← flatten_wordsOf, wordsOf_spaced (hwords ws hws)]
  rw [visible, hbytes, hlegible, List.filter_flatMap, List.flatMap_congr hspaced, List.flatMap_def,
    List.flatten_flatten]

/-- Wrapping is right. Every line fits into the width. The words of the lines are those of the text,
where only words wider than a line are cut. Of UTF-8 nothing but blanks is lost or added. A
paragraph without words becomes one empty line, and all other lines have words. Wrapping the lines
again changes nothing. -/
theorem wrap_lines {width : Int64} (hwidth : 2 < width) (t : Text) :
    (∀ line ∈ wrap width t, (line.chars.length : Int) ≤ width.toInt) ∧
      (wrap width t).flatMap Text.words = t.words.flatMap (cut width.toInt.toNat) ∧
      ((∀ b, Glyph.stray b ∉ t.glyphs) → visible (wrap width t).flatten = visible t) ∧
      (∃ blocks : List (List Text), blocks.flatten = wrap width t ∧
        List.Forall₂ (fun para block => (para.words = [] → block = [[]]) ∧
          (para.words ≠ [] → block ≠ [] ∧ [] ∉ block)) t.lines blocks) ∧
      wrap width (joinWith [newline] (wrap width t)) = wrap width t := by
  obtain ⟨groups, hwrap, hflatten, hne, hgroups⟩ := exists_wrap hwidth t
  refine ⟨?_, ?_, fun hutf8 => ?_, ⟨t.lines.map (paragraph width.toInt.toNat), ?_, ?_⟩, ?_⟩
  · intro line hline
    rw [hwrap] at hline
    obtain ⟨ws, hws, rfl⟩ := List.mem_map.mp hline
    have hfits := (hgroups ws hws).length
    have hpos := width_pos hwidth
    rw [chars, List.length_map, (hgroups ws hws).glyphs_lineText]
    omega
  · rw [hwrap, List.flatMap_map, List.flatMap_congr fun ws hws => (hgroups ws hws).words_lineText,
      ← hflatten]
    exact List.flatMap_id
  · have hglyphs : groups.flatten.flatten = t.words.flatten := by
      rw [hflatten]
      exact flatten_flatMap_cut fun w hw b hb => hutf8 b ((mem_wordsOf hw).2.subset hb)
    rw [hwrap, visible_eq t, ← hglyphs]
    refine visible_flatten (fun ws hws => (hgroups ws hws).words) fun ws hws w hw b hb => ?_
    have hmem : Glyph.stray b ∈ groups.flatten.flatten :=
      List.mem_flatten.mpr ⟨w, List.mem_flatten.mpr ⟨ws, hws, hw⟩, hb⟩
    rw [hglyphs, Text.words, flatten_wordsOf] at hmem
    exact hutf8 b (List.mem_of_mem_filter hmem)
  · rw [wrap_eq hwidth, List.flatMap_def]
  · rw [List.forall₂_map_right_iff, List.forall₂_same]
    intro para _
    obtain ⟨gs, hgs, -, hall, hne, hempty, hfull⟩ := exists_paragraph (width_pos hwidth) para
    rw [hgs]
    refine ⟨fun h => by rw [hempty h]; rfl, fun h => ⟨by simpa using hne, fun hnil => ?_⟩⟩
    obtain ⟨ws, hws, heq⟩ := List.mem_map.mp hnil
    exact (hall ws hws).lineText_ne_nil (fun hws' => hfull h (hws' ▸ hws)) heq
  · rw [hwrap]
    exact wrap_joinWith hwidth hne hgroups

/-- A word that has to be cut, whose last piece stands beside the next word, and a blank
paragraph. -/
theorem wrap_lines_cut : (2 : Int64) < 5 ∧
    wrap 5 (ofString "été  abcdefghijkl mn\n \t\nxy") =
      ["été", "abcde", "fghij", "kl mn", "", "xy"].map ofString ∧
    wrap 5 (ofString "été\nabcde\nfghij\nkl mn\n\nxy") =
      ["été", "abcde", "fghij", "kl mn", "", "xy"].map ofString ∧
    visible (["été", "abcde", "fghij", "kl mn", "", "xy"].map ofString).flatten =
      visible (ofString "été  abcdefghijkl mn\n \t\nxy") := by
  have hwrap : wrap 5 (ofString "été  abcdefghijkl mn\n \t\nxy") =
      ["été", "abcde", "fghij", "kl mn", "", "xy"].map ofString := by decide +kernel
  have hjoin : joinWith [newline] (["été", "abcde", "fghij", "kl mn", "", "xy"].map ofString) =
      ofString "été\nabcde\nfghij\nkl mn\n\nxy" := by decide +kernel
  have hglyphs : (ofString "été  abcdefghijkl mn\n \t\nxy").glyphs =
      "été  abcdefghijkl mn\n \t\nxy".toList.map Glyph.char := by decide +kernel
  obtain ⟨-, -, hvisible, -, hagain⟩ :=
    wrap_lines (by decide : (2 : Int64) < 5) (ofString "été  abcdefghijkl mn\n \t\nxy")
  rw [hwrap] at hvisible hagain
  rw [hjoin] at hagain
  exact ⟨by decide, hwrap, hagain, hvisible (by rw [hglyphs]; simp)⟩

end Lines

end Spreadsheet.Wrap
