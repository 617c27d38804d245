import Spreadsheet.Proofs.Text.Utf8
import Spreadsheet.Text.Blank

/-! # Words and lines

Words are the glyphs between blanks, and lines the bytes between newlines. The words of a text are
those of its lines. Glyphs next to each other in a text are read again from their bytes alone, so a
word can be taken out of its text and put next to others, with a blank between them.
-/
namespace Spreadsheet.Text

open String (utf8EncodeChar)

section Legible

variable {b x : UInt8} {c : Char} {g : Glyph} {gs hs : List Glyph}

theorem glyphsFrom_eq (k : Nat) (t : Text) : glyphsFrom k t = glyphs (t.drop k) := by
  induction t generalizing k with
  | nil => simp [glyphs, glyphsFrom]
  | cons b r ih =>
    cases k with
    | zero => rfl
    | succ k => rw [glyphsFrom, ih, List.drop_succ_cons]

theorem glyphs_utf8EncodeChar_append (c : Char) (t : Text) :
    glyphs (utf8EncodeChar c ++ t) = .char c :: glyphs t := by
  have hlead := leading_utf8EncodeChar c t
  have hlength := (encoding_of_leading hlead).1
  cases hbytes : utf8EncodeChar c with
  | nil =>
    rw [hbytes] at hlength
    cases hlength
  | cons b r =>
    rw [hbytes] at hlead
    rw [List.cons_append] at hlead ⊢
    rw [glyphs, glyphsFrom, hlead]
    simp only [glyphsFrom_eq, List.length_cons, Nat.add_sub_cancel, List.drop_left]

theorem glyphs_newline_cons (t : Text) : glyphs (newline :: t) = .char '\n' :: glyphs t :=
  glyphs_utf8EncodeChar_append '\n' t

/-- Glyphs that are read again from their bytes. -/
def Legible (gs : List Glyph) : Prop := glyphs (ofGlyphs gs) = gs

theorem legible_glyphs (t : Text) : Legible t.glyphs := by rw [Legible, ofGlyphs_glyphs]

theorem legible_nil : Legible [] := rfl

theorem legible_char_cons : Legible (.char c :: gs) ↔ Legible gs := by
  rw [Legible, ofGlyphs, List.flatMap_cons, Glyph.bytes, glyphs_utf8EncodeChar_append,
    List.cons_inj_right]
  rfl

/-- A stray byte is read again if it starts no character with the bytes after it. -/
theorem legible_stray_cons :
    Legible (.stray b :: gs) ↔ leading (b :: ofGlyphs gs) = none ∧ Legible gs := by
  change glyphs (b :: ofGlyphs gs) = .stray b :: gs ↔ _
  rw [glyphs, glyphsFrom]
  cases leading (b :: ofGlyphs gs) with
  | none =>
    simp only [List.cons_inj_right, true_and]
    rfl
  | some p => simp

theorem legible_of_stray_not_mem (h : ∀ b, Glyph.stray b ∉ gs) : Legible gs := by
  induction gs with
  | nil => exact legible_nil
  | cons g gs ih =>
    cases g with
    | char c => exact legible_char_cons.mpr (ih fun b hb => h b (List.mem_cons_of_mem _ hb))
    | stray b => exact absurd List.mem_cons_self (h b)

namespace Legible

theorem of_append_right (h : Legible (gs ++ hs)) : Legible hs := by
  induction gs with
  | nil => exact h
  | cons g gs ih =>
    cases g with
    | char c => exact ih (legible_char_cons.mp h)
    | stray b => exact ih (legible_stray_cons.mp h).2

/-- What starts a character after some bytes are cut off started it before. -/
theorem of_append_left (h : Legible (gs ++ hs)) : Legible gs := by
  induction gs with
  | nil => exact legible_nil
  | cons g gs ih =>
    cases g with
    | char c => exact legible_char_cons.mpr (ih (legible_char_cons.mp h))
    | stray b =>
      obtain ⟨hnone, hrest⟩ := legible_stray_cons.mp h
      refine legible_stray_cons.mpr ⟨Option.eq_none_iff_forall_ne_some.mpr fun p hp => ?_, ih hrest⟩
      have hbytes : ofGlyphs (gs ++ hs) = ofGlyphs gs ++ ofGlyphs hs := List.flatMap_append
      have hsome := leading_append_of_some hp (ofGlyphs hs)
      rw [List.cons_append, ← hbytes] at hsome
      cases hsome.symm.trans hnone

theorem of_within (h : Legible hs) (hwithin : gs <:+: hs) : Legible gs := by
  obtain ⟨before, after, rfl⟩ := hwithin
  exact h.of_append_left.of_append_right

/-- Glyphs can be put next to others with a space between them. -/
theorem append_space (hgs : Legible gs) (hhs : Legible hs) : Legible (gs ++ .char ' ' :: hs) := by
  have hbytes : ofGlyphs (gs ++ .char ' ' :: hs) = ofGlyphs gs ++ 0x20 :: ofGlyphs hs := by
    rw [ofGlyphs, List.flatMap_append]
    rfl
  have hspace : glyphs (0x20 :: ofGlyphs hs) = .char ' ' :: glyphs (ofGlyphs hs) :=
    glyphs_utf8EncodeChar_append ' ' _
  rw [Legible, hbytes, glyphs_append (by decide), hspace, hgs, hhs]

end Legible

end Legible

section Words

variable {b g : Glyph} {w gs hs : List Glyph} {t : Text}

/-- One or more glyphs without a blank among them. -/
structure IsWord (w : List Glyph) : Prop where
  ne_nil : w ≠ []
  solid : ∀ g ∈ w, g.isBlank = false

/-- Glyphs are blanks and words one after the other, where a word ends before a blank or at the
end. -/
theorem words_induction {P : List Glyph → Prop} (nil : P [])
    (blank : ∀ {b gs}, b.isBlank = true → P gs → P (b :: gs))
    (word : ∀ {w gs}, IsWord w → (∀ g ∈ gs.head?, g.isBlank = true) → P gs → P (w ++ gs))
    (gs : List Glyph) : P gs := by
  induction hn : gs.length using Nat.strongRecOn generalizing gs with
  | ind n ih =>
    cases gs with
    | nil => exact nil
    | cons g gs =>
      cases hg : g.isBlank with
      | true => exact blank hg (ih gs.length (by simp [← hn]) gs rfl)
      | false =>
        have hword : IsWord (g :: gs.takeWhile fun x => !x.isBlank) := by
          refine ⟨List.cons_ne_nil _ _, fun x hx => ?_⟩
          rcases List.mem_cons.mp hx with rfl | hx
          · exact hg
          · simpa using List.all_eq_true.mp List.all_takeWhile x hx
        have hrest := (List.dropWhile_sublist (fun x : Glyph => !x.isBlank) (l := gs)).length_le
        have hsplit : g :: gs = (g :: gs.takeWhile fun x => !x.isBlank) ++
            gs.dropWhile fun x => !x.isBlank := by
          rw [List.cons_append, List.takeWhile_append_dropWhile]
        rw [hsplit]
        refine word hword (fun x hx => ?_) (ih _ ?_ _ rfl)
        · have hend := List.head?_dropWhile_not (fun x : Glyph => !x.isBlank) gs
          rw [Option.mem_def.mp hx] at hend
          simpa using hend
        · rw [← hn, List.length_cons]
          omega

theorem wordsOf_blank_cons (hb : b.isBlank = true) (gs : List Glyph) :
    wordsOf (b :: gs) = wordsOf gs := by
  rw [wordsOf.eq_def]
  exact if_pos hb

theorem wordsOf_append (hw : IsWord w) (hend : ∀ g ∈ gs.head?, g.isBlank = true) :
    wordsOf (w ++ gs) = w :: wordsOf gs := by
  obtain ⟨g, w, rfl⟩ := List.exists_cons_of_ne_nil hw.ne_nil
  obtain ⟨hg, hsolid⟩ := List.forall_mem_cons.mp hw.solid
  induction w generalizing g with
  | nil =>
    cases gs with
    | nil => simp [wordsOf, hg]
    | cons b gs =>
      have hb := hend b rfl
      rw [List.singleton_append, wordsOf.eq_def]
      simp only [hg, wordsOf_blank_cons hb]
      cases wordsOf gs <;> simp [hb]
  | cons h w ih =>
    obtain ⟨hh, hrest⟩ := List.forall_mem_cons.mp hsolid
    have htail := ih h ⟨List.cons_ne_nil _ _, hsolid⟩ hh hrest
    rw [List.cons_append, wordsOf.eq_def]
    rw [List.cons_append] at htail ⊢
    simp [hg, hh, htail]

theorem wordsOf_append_blank (hb : b.isBlank = true) (gs hs : List Glyph) :
    wordsOf (gs ++ b :: hs) = wordsOf gs ++ wordsOf hs := by
  induction gs using words_induction with
  | nil => exact wordsOf_blank_cons hb hs
  | blank hb' ih => rw [List.cons_append, wordsOf_blank_cons hb', wordsOf_blank_cons hb', ih]
  | @word w gs hw hend ih =>
    rw [List.append_assoc, wordsOf_append hw hend, wordsOf_append hw, ih, List.cons_append]
    cases gs with
    | nil => simpa using hb
    | cons g gs => exact hend

theorem IsWord.wordsOf_eq (hw : IsWord w) : wordsOf w = [w] := by
  have h : wordsOf (w ++ []) = w :: wordsOf [] := wordsOf_append hw (by simp)
  rwa [List.append_nil] at h

theorem mem_wordsOf (h : w ∈ wordsOf gs) : IsWord w ∧ w <:+: gs := by
  induction gs using words_induction with
  | nil => cases h
  | blank hb ih =>
    rw [wordsOf_blank_cons hb] at h
    exact ⟨(ih h).1, (ih h).2.trans (List.suffix_cons _ _).isInfix⟩
  | word hv hend ih =>
    rw [wordsOf_append hv hend, List.mem_cons] at h
    rcases h with rfl | h
    · exact ⟨hv, (List.prefix_append _ _).isInfix⟩
    · exact ⟨(ih h).1, (ih h).2.trans (List.suffix_append _ _).isInfix⟩

theorem flatten_wordsOf (gs : List Glyph) :
    (wordsOf gs).flatten = gs.filter fun g => !g.isBlank := by
  induction gs using words_induction with
  | nil => rfl
  | blank hb ih => rw [wordsOf_blank_cons hb, ih, List.filter_cons_of_neg (by simp [hb])]
  | word hw hend ih =>
    rw [wordsOf_append hw hend, List.flatten_cons, ih, List.filter_append]
    exact congrArg (· ++ _) (List.filter_eq_self.mpr fun g hg => by simp [hw.solid g hg]).symm

theorem legible_of_mem_words (h : w ∈ t.words) : Legible w :=
  (legible_glyphs t).of_within (mem_wordsOf h).2

end Words

section Lines

variable {t : Text} {ls : List Text}

theorem joinWith_cons_cons (sep t u : Text) (ts : List Text) :
    joinWith sep (t :: u :: ts) = t ++ (sep ++ joinWith sep (u :: ts)) := List.append_assoc ..

theorem lines_ne_nil (t : Text) : t.lines ≠ [] := by
  cases t with
  | nil => exact List.cons_ne_nil _ _
  | cons b r =>
    rw [lines]
    split
    · exact List.cons_ne_nil _ _
    · split <;> exact List.cons_ne_nil _ _

theorem lines_newline_cons (t : Text) : lines (newline :: t) = [] :: lines t := by
  rw [lines]
  split
  · next h => exact absurd h (lines_ne_nil t)
  · next h => rw [if_pos rfl, h]

theorem lines_append (ht : newline ∉ t) (rest : Text) :
    lines (t ++ newline :: rest) = t :: lines rest := by
  induction t with
  | nil => exact lines_newline_cons rest
  | cons b r ih =>
    obtain ⟨hb, hr⟩ := List.ne_and_not_mem_of_not_mem_cons ht
    rw [List.cons_append, lines, ih hr]
    exact if_neg (Ne.symm hb)

theorem lines_eq_singleton (ht : newline ∉ t) : lines t = [t] := by
  induction t with
  | nil => rfl
  | cons b r ih =>
    obtain ⟨hb, hr⟩ := List.ne_and_not_mem_of_not_mem_cons ht
    rw [lines, ih hr]
    exact if_neg (Ne.symm hb)

/-- Joining lines and taking the lines apart again gives them back. -/
theorem lines_joinWith (hne : ls ≠ []) (hls : ∀ l ∈ ls, newline ∉ l) :
    lines (joinWith [newline] ls) = ls := by
  induction ls with
  | nil => exact absurd rfl hne
  | cons l ls ih =>
    obtain ⟨hl, hrest⟩ := List.forall_mem_cons.mp hls
    cases ls with
    | nil => exact lines_eq_singleton hl
    | cons k ls =>
      have htail := ih (List.cons_ne_nil _ _) hrest
      rw [joinWith_cons_cons, List.singleton_append, lines_append hl, htail]

theorem joinWith_lines (t : Text) : joinWith [newline] t.lines = t := by
  induction t with
  | nil => rfl
  | cons b r ih =>
    rw [lines]
    split
    · next h => exact absurd h (lines_ne_nil r)
    · next l ls h =>
      rw [h] at ih
      split
      · next hb => rw [joinWith_cons_cons, ih, hb, List.nil_append, List.singleton_append]
      · cases ls <;> exact congrArg (b :: ·) ih

theorem words_append_newline (t rest : Text) :
    words (t ++ newline :: rest) = words t ++ words rest := by
  rw [words, glyphs_append (by decide), glyphs_newline_cons, wordsOf_append_blank (by decide)]
  rfl

/-- No word goes on over a newline. -/
theorem words_lines (t : Text) : t.lines.flatMap words = t.words := by
  have hjoin (ls : List Text) : ls.flatMap words = words (joinWith [newline] ls) := by
    induction ls with
    | nil => rfl
    | cons l ls ih =>
      cases ls with
      | nil => simp [joinWith]
      | cons k ls =>
        rw [List.flatMap_cons, ih, joinWith_cons_cons, List.singleton_append, words_append_newline]
  rw [hjoin, joinWith_lines]

theorem newline_mem_glyphs (h : newline ∈ t) : .char '\n' ∈ t.glyphs := by
  obtain ⟨before, after, rfl⟩ := List.append_of_mem h
  rw [glyphs_append (by decide), glyphs_newline_cons]
  exact List.mem_append_right _ List.mem_cons_self

end Lines

end Spreadsheet.Text
