import Mathlib.Logic.Basic
import Spreadsheet.Text.Utf8

/-! # Texts as characters

The glyphs of a text have its bytes. So writing down the characters that show for a text gives the
text back, except that every stray byte has become a replacement character. A text is read apart at
each byte of ASCII.
-/
namespace Spreadsheet.Text

open String (utf8EncodeChar)

section Leading

variable {c : Char} {b x : UInt8} {n p k : Nat} {t : Text}

theorem scalar?_eq_some_iff : scalar? n = some c ↔ c.toNat = n := by
  unfold scalar?
  split
  · next h =>
    have hn : (Char.ofNat n).toNat = n := by
      rw [Char.ofNat, dif_pos h]
      rfl
    rw [Option.some_inj, ← Char.toNat_inj, hn]
    exact eq_comm
  · next h =>
    simp only [reduceCtorEq, false_iff]
    rintro rfl
    exact h c.valid

theorem continuation?_eq_some_iff : continuation? b = some p ↔ b.toNat = p + 0x80 ∧ p < 0x40 := by
  simp only [continuation?, UInt8.le_iff_toNat_le, UInt8.lt_iff_toNat_lt, UInt8.reduceToNat]
  split <;> simp <;> omega

theorem ofNat_eq_iff : UInt8.ofNat n = b ↔ n % 256 = b.toNat := by
  rw [← UInt8.toNat_inj, UInt8.toNat_ofNat']

/-- A text starts with the bytes of the character that it starts with. -/
theorem encoding_of_leading (h : leading t = some (c, k)) :
    k + 1 = (utf8EncodeChar c).length ∧ ∃ rest, t = utf8EncodeChar c ++ rest := by
  -- By the number of bytes that the first one announces.
  unfold leading at h
  split at h
  · cases h
  · next b r =>
    simp only [UInt8.lt_iff_toNat_lt, UInt8.reduceToNat] at h
    split at h
    · simp only [Option.map_eq_some_iff, scalar?_eq_some_iff, Prod.mk.injEq] at h
      obtain ⟨c, hc, rfl, rfl⟩ := h
      have hbytes : utf8EncodeChar c = [b] := by
        rw [utf8EncodeChar, Char.toNat_val, if_pos (by omega), hc, UInt8.ofNat_toNat]
      simp [hbytes]
    split at h
    · split at h
      · next b₁ rest =>
        simp only [bind, Option.bind_eq_some_iff, continuation?_eq_some_iff,
          Option.ite_none_left_eq_some, Option.map_eq_some_iff, scalar?_eq_some_iff,
          Prod.mk.injEq] at h
        obtain ⟨p₁, hp₁, hb, c, hc, rfl, rfl⟩ := h
        have hbytes : utf8EncodeChar c = [b, b₁] := by
          rw [utf8EncodeChar, Char.toNat_val, if_neg (by omega), if_pos (by omega)]
          simp only [List.cons.injEq, ofNat_eq_iff, and_true]
          omega
        simp [hbytes]
      · cases h
    split at h
    · split at h
      · next b₁ b₂ rest =>
        simp only [bind, Option.bind_eq_some_iff, continuation?_eq_some_iff,
          Option.ite_none_left_eq_some, Option.map_eq_some_iff, scalar?_eq_some_iff,
          Prod.mk.injEq] at h
        obtain ⟨p₁, hp₁, p₂, hp₂, hb, c, hc, rfl, rfl⟩ := h
        have hbytes : utf8EncodeChar c = [b, b₁, b₂] := by
          rw [utf8EncodeChar, Char.toNat_val, if_neg (by omega), if_neg (by omega),
            if_pos (by omega)]
          simp only [List.cons.injEq, ofNat_eq_iff, and_true]
          omega
        simp [hbytes]
      · cases h
    split at h
    · split at h
      · next b₁ b₂ b₃ rest =>
        simp only [bind, Option.bind_eq_some_iff, continuation?_eq_some_iff,
          Option.ite_none_left_eq_some, Option.map_eq_some_iff, scalar?_eq_some_iff,
          Prod.mk.injEq] at h
        obtain ⟨p₁, hp₁, p₂, hp₂, p₃, hp₃, hb, c, hc, rfl, rfl⟩ := h
        have hbytes : utf8EncodeChar c = [b, b₁, b₂, b₃] := by
          rw [utf8EncodeChar, Char.toNat_val, if_neg (by omega), if_neg (by omega),
            if_neg (by omega)]
          simp only [List.cons.injEq, ofNat_eq_iff, and_true]
          omega
        simp [hbytes]
      · cases h
    · cases h

theorem continuation?_ofNat (hp : p < 0x40) : continuation? (UInt8.ofNat (p + 0x80)) = some p := by
  rw [continuation?_eq_some_iff, UInt8.toNat_ofNat']
  omega

/-- The bytes of a character are read as the character, whatever follows. -/
theorem leading_utf8EncodeChar (c : Char) (rest : Text) :
    leading (utf8EncodeChar c ++ rest) = some (c, (utf8EncodeChar c).length - 1) := by
  have hself : scalar? c.toNat = some c := scalar?_eq_some_iff.mpr rfl
  have hmost : c.toNat < 0x110000 := by
    rcases c.valid with h | h
    · exact Nat.lt_trans h (by decide)
    · exact h.2
  have hpayload (m : Nat) : continuation? (UInt8.ofNat (m % 64 + 128)) = some (m % 64) :=
    continuation?_ofNat (Nat.mod_lt m (by decide))
  generalize hn : c.toNat = n at hself hmost
  -- Each length of an encoding has a range of characters, which the first byte announces.
  rw [utf8EncodeChar, Char.toNat_val, hn]
  split
  · have hfirst : (UInt8.ofNat n).toNat = n := by
      rw [UInt8.toNat_ofNat']
      omega
    simp only [leading, List.cons_append, UInt8.lt_iff_toNat_lt, hfirst, UInt8.reduceToNat]
    rw [if_pos (by omega), hself]
    rfl
  split
  · have hfirst : (UInt8.ofNat (n / 64 % 32 + 192)).toNat = n / 64 + 192 := by
      rw [UInt8.toNat_ofNat']
      omega
    have hvalue : (n / 64 + 192 - 192) * 64 + n % 64 = n := by omega
    simp only [leading, List.cons_append, List.nil_append, UInt8.lt_iff_toNat_lt, hfirst,
      UInt8.reduceToNat, hpayload, Option.bind_eq_bind, Option.bind_some, hvalue, hself]
    rw [if_neg (by omega), if_pos (by omega), if_neg (by omega)]
    rfl
  split
  · have hfirst : (UInt8.ofNat (n / 4096 % 16 + 224)).toNat = n / 4096 + 224 := by
      rw [UInt8.toNat_ofNat']
      omega
    have hvalue : ((n / 4096 + 224 - 224) * 64 + n / 64 % 64) * 64 + n % 64 = n := by omega
    simp only [leading, List.cons_append, List.nil_append, UInt8.lt_iff_toNat_lt, hfirst,
      UInt8.reduceToNat, hpayload, Option.bind_eq_bind, Option.bind_some, hvalue, hself]
    rw [if_neg (by omega), if_neg (by omega), if_pos (by omega), if_neg (by omega)]
    rfl
  · have hfirst : (UInt8.ofNat (n / 262144 % 8 + 240)).toNat = n / 262144 + 240 := by
      rw [UInt8.toNat_ofNat']
      omega
    have hvalue :
        (((n / 262144 + 240 - 240) * 64 + n / 4096 % 64) * 64 + n / 64 % 64) * 64 + n % 64 = n := by
      omega
    simp only [leading, List.cons_append, List.nil_append, UInt8.lt_iff_toNat_lt, hfirst,
      UInt8.reduceToNat, hpayload, Option.bind_eq_bind, Option.bind_some, hvalue, hself]
    rw [if_neg (by omega), if_neg (by omega), if_neg (by omega), if_pos (by omega),
      if_neg (by omega)]
    rfl

/-- A character at the start of a text is there whatever follows the text. -/
theorem leading_append_of_some (h : leading t = some (c, k)) (rest : Text) :
    leading (t ++ rest) = some (c, k) := by
  obtain ⟨hlength, r, rfl⟩ := encoding_of_leading h
  rw [List.append_assoc, leading_utf8EncodeChar, ← hlength, Nat.add_sub_cancel]

theorem leading_ascii (hx : x < 0x80) (rest : Text) :
    ∃ c, leading (x :: rest) = some (c, 0) ∧ utf8EncodeChar c = [x] := by
  have hsmall : x.toNat < 0x80 := UInt8.lt_iff_toNat_lt.mp hx
  have hlead : leading (x :: rest) = some (Char.ofNat x.toNat, 0) := by
    unfold leading
    simp only [if_pos hx, scalar?, if_pos (show x.toNat.isValidChar from .inl (by omega)),
      Option.map_some]
  obtain ⟨hlength, rest', hbytes⟩ := encoding_of_leading hlead
  refine ⟨_, hlead, ?_⟩
  obtain ⟨y, hy⟩ := List.length_eq_one_iff.mp hlength.symm
  rw [hy] at hbytes ⊢
  rw [(List.cons.inj hbytes).1]

/-- No character goes on over a byte of ASCII. -/
theorem leading_append (hx : x < 0x80) (b : UInt8) (r rest : Text) :
    leading (b :: r ++ x :: rest) = leading (b :: r) := by
  have hnone : continuation? x = none := if_neg fun h => absurd hx (UInt8.not_lt.mpr h.1)
  rcases r with _ | ⟨b₁, _ | ⟨b₂, _ | ⟨b₃, r⟩⟩⟩ <;> rcases rest with _ | ⟨x₁, _ | ⟨x₂, rest⟩⟩ <;>
    simp [leading, hnone]

end Leading

section Glyphs

variable {x : UInt8} {k : Nat} {t rest : Text}

theorem ofGlyphs_glyphsFrom (k : Nat) (t : Text) : ofGlyphs (glyphsFrom k t) = t.drop k := by
  induction t generalizing k with
  | nil => simp [glyphsFrom, ofGlyphs]
  | cons b r ih =>
    cases k with
    | succ k => rw [glyphsFrom, ih, List.drop_succ_cons]
    | zero =>
      rw [glyphsFrom, List.drop_zero]
      cases hlead : leading (b :: r) with
      | none =>
        change [b] ++ ofGlyphs (glyphsFrom 0 r) = b :: r
        rw [ih]
        rfl
      | some p =>
        obtain ⟨hlength, rest, hbytes⟩ := encoding_of_leading (c := p.1) (k := p.2) hlead
        change utf8EncodeChar p.1 ++ ofGlyphs (glyphsFrom p.2 r) = b :: r
        have hrest : (b :: r).drop (p.2 + 1) = rest := by rw [hbytes, hlength, List.drop_left]
        rw [ih, ← List.drop_succ_cons (a := b), hrest, hbytes]

theorem ofGlyphs_glyphs (t : Text) : ofGlyphs t.glyphs = t := ofGlyphs_glyphsFrom 0 t

theorem glyphsFrom_append (hx : x < 0x80) (hk : k ≤ t.length) (rest : Text) :
    glyphsFrom k (t ++ x :: rest) = glyphsFrom k t ++ glyphs (x :: rest) := by
  induction t generalizing k with
  | nil =>
    cases Nat.le_zero.mp hk
    rfl
  | cons b r ih =>
    cases k with
    | succ k => exact ih (Nat.le_of_succ_le_succ hk)
    | zero =>
      rw [List.cons_append, glyphsFrom, glyphsFrom, ← List.cons_append, leading_append hx]
      cases hlead : leading (b :: r) with
      | none => exact congrArg _ (ih (Nat.zero_le _))
      | some p =>
        obtain ⟨hlength, rest, hbytes⟩ := encoding_of_leading (c := p.1) (k := p.2) hlead
        have hwithin : (b :: r).length = _ := congrArg List.length hbytes
        rw [List.length_append, ← hlength, List.length_cons] at hwithin
        exact congrArg _ (ih (by omega))

theorem glyphs_append (hx : x < 0x80) (t rest : Text) :
    glyphs (t ++ x :: rest) = glyphs t ++ glyphs (x :: rest) :=
  glyphsFrom_append hx (Nat.zero_le _) rest

end Glyphs

section Repair

variable {b x : UInt8} {t : Text}

/-- The text with a replacement character for each stray byte. -/
def repair (t : Text) : Text := ofChars t.chars

theorem repair_eq (t : Text) : t.repair = t.glyphs.flatMap fun g => utf8EncodeChar g.toChar := by
  rw [repair, ofChars, chars, List.flatMap_map]

theorem repair_append (hx : x < 0x80) (t rest : Text) :
    repair (t ++ x :: rest) = repair t ++ repair (x :: rest) := by
  rw [repair_eq, glyphs_append hx, List.flatMap_append, ← repair_eq, ← repair_eq]

theorem repair_cons (hx : x < 0x80) (rest : Text) : repair (x :: rest) = x :: repair rest := by
  obtain ⟨c, hlead, hbytes⟩ := leading_ascii hx rest
  have hglyphs : glyphs (x :: rest) = .char c :: glyphs rest := by
    rw [glyphs, glyphsFrom, hlead]
    rfl
  rw [repair_eq, hglyphs, List.flatMap_cons, ← repair_eq, Glyph.toChar, hbytes]
  rfl

def IsAscii (t : Text) : Prop := ∀ b ∈ t, b < 0x80

theorem IsAscii.repair_append (ht : t.IsAscii) (rest : Text) :
    repair (t ++ rest) = t ++ repair rest := by
  induction t with
  | nil => rfl
  | cons b r ih =>
    obtain ⟨hb, hr⟩ := List.forall_mem_cons.mp ht
    rw [List.cons_append, repair_cons hb, ih hr, List.cons_append]

theorem IsAscii.repair_eq (ht : t.IsAscii) : repair t = t := by
  have h := ht.repair_append []
  rwa [List.append_nil, show repair [] = [] from rfl, List.append_nil] at h

theorem mem_repair (hb : b ∈ t.repair) : b ∈ t ∨ b ∈ utf8EncodeChar Glyph.replacement := by
  rw [repair_eq] at hb
  obtain ⟨g, hg, hb⟩ := List.mem_flatMap.mp hb
  cases g with
  | stray y => exact .inr hb
  | char c =>
    rw [← ofGlyphs_glyphs t]
    exact .inl (List.mem_flatMap.mpr ⟨_, hg, hb⟩)

/-- A replacement character has more bytes than the byte that it stands for. -/
theorem length_ofGlyphs_le (gs : List Glyph) :
    (ofGlyphs gs).length ≤ (gs.flatMap fun g => utf8EncodeChar g.toChar).length := by
  induction gs with
  | nil => exact Nat.le_refl _
  | cons g gs ih =>
    rw [ofGlyphs, List.flatMap_cons, List.flatMap_cons, List.length_append, List.length_append]
    refine Nat.add_le_add ?_ ih
    cases g with
    | char c => exact Nat.le_refl _
    | stray y => exact (by decide : 1 ≤ (utf8EncodeChar Glyph.replacement).length)

theorem repair_eq_self_iff : t.repair = t ↔ ∀ b, Glyph.stray b ∉ t.glyphs := by
  have hglyphs (gs : List Glyph) :
      (gs.flatMap fun g => utf8EncodeChar g.toChar) = ofGlyphs gs ↔ ∀ b, Glyph.stray b ∉ gs := by
    induction gs with
    | nil => simp [ofGlyphs]
    | cons g gs ih =>
      rw [List.flatMap_cons, ofGlyphs, List.flatMap_cons]
      cases g with
      | char c => simpa [Glyph.toChar, Glyph.bytes, ofGlyphs] using ih
      | stray y =>
        have hlonger := length_ofGlyphs_le gs
        refine iff_of_false (fun h => ?_) fun h => h y List.mem_cons_self
        have hlength := congrArg List.length h
        rw [List.length_append, List.length_append, ← ofGlyphs] at hlength
        have hthree : (utf8EncodeChar (Glyph.stray y).toChar).length = 3 := rfl
        have hone : (Glyph.stray y).bytes.length = 1 := rfl
        omega
  rw [← hglyphs, ofGlyphs_glyphs, repair_eq]

theorem repair_ne_nil (ht : t ≠ []) : t.repair ≠ [] := by
  intro hnil
  have hle := length_ofGlyphs_le t.glyphs
  rw [ofGlyphs_glyphs, ← repair_eq, hnil] at hle
  exact ht (List.length_eq_zero_iff.mp (Nat.le_zero.mp hle))

end Repair

end Spreadsheet.Text
