import Spreadsheet.Proofs.Formula.RoundTrip
import Spreadsheet.Proofs.Text.Utf8

/-! # Formulas as characters

All words of a formula but texts in quotes consist of ASCII. So an assignment that is taken as
characters and written down again is an assignment of the same expression, up to stray bytes in a
text in quotes.
-/
namespace Spreadsheet.Formula

open Text

variable {context : Option Ref}

section Ascii

theorem lt_of_isDigit {b : UInt8} (hb : isDigit b) : b < 0x80 := by
  simp only [isDigit, Bool.and_eq_true, decide_eq_true_eq] at hb
  exact UInt8.lt_of_le_of_lt hb.2 (by decide)

theorem lt_of_isUpper {b : UInt8} (hb : isUpper b) : b < 0x80 := by
  simp only [isUpper, Bool.and_eq_true, decide_eq_true_eq] at hb
  exact UInt8.lt_of_le_of_lt hb.2 (by decide)

theorem isAscii_byte {b : UInt8} (hb : b < 0x80) : IsAscii [b] := List.forall_mem_singleton.mpr hb

theorem IsSigned.isAscii {w : Text} (hw : IsSigned w) : IsAscii w := by
  rcases hw with hrun | ⟨ds, rfl, hds⟩
  · exact fun b hb => lt_of_isDigit (hrun.2 b hb)
  · exact List.forall_mem_cons.mpr ⟨by decide, fun b hb => lt_of_isDigit (hds.2 b hb)⟩

theorem Address.isAscii_words {a : Address} (ha : a.Valid) : ∀ w ∈ a.words, IsAscii w := by
  simp only [Address.words, List.mem_cons, List.not_mem_nil, or_false, forall_eq_or_imp, forall_eq]
  exact ⟨fun b hb => lt_of_isUpper (ha.1.2 b hb), IsSigned.isAscii (.inl ha.2.1.1)⟩

theorem Factor.isAscii_words {f : Factor} (hf : f.Valid context) : ∀ w ∈ f.words, IsAscii w := by
  cases f with
  | absolute a => exact Address.isAscii_words hf
  | relative rows cols ref =>
    simp only [Factor.words, List.mem_cons, List.not_mem_nil, or_false, forall_eq_or_imp, forall_eq]
    exact ⟨isAscii_byte (by decide), hf.1.1.isAscii, isAscii_byte (by decide), hf.2.1.1.isAscii⟩
  | integer n =>
    simp only [Factor.words, List.mem_singleton, forall_eq]
    exact hf.1.isAscii

theorem isAscii_flatten {ws : List Text} (h : ∀ w ∈ ws, IsAscii w) : IsAscii ws.flatten := by
  intro b hb
  obtain ⟨w, hw, hb⟩ := List.mem_flatten.mp hb
  exact h w hw b hb

end Ascii

namespace Expression

variable {e : Expression Factor}

/-- The expression with replacement characters for stray bytes. -/
def repair : Expression Factor → Expression Factor
  | .sum terms => .sum terms
  | .quoted body => .quoted body.repair

theorem text_repair (he : e.Valid context) : e.repair.text = e.text.repair := by
  cases e with
  | sum terms =>
    refine (IsAscii.repair_eq (isAscii_flatten ?_)).symm
    exact Chain.forall_words (isAscii_byte (by decide)) fun c hc =>
      Chain.forall_words (isAscii_byte (by decide)) fun f hf => Factor.isAscii_words (he c hc f hf)
  | quoted body =>
    have hquote : byte '"' < 0x80 := by decide
    rw [repair, text_quoted, text_quoted, quote, quote, repair_cons hquote, repair_append hquote,
      repair_cons hquote]
    rfl

theorem Valid.repair (he : e.Valid context) : e.repair.Valid context := by
  cases e with
  | sum terms => exact he
  | quoted body =>
    have hreplacement : String.utf8EncodeChar Glyph.replacement = [0xEF, 0xBF, 0xBD] := by decide
    refine ⟨repair_ne_nil he.1, fun b hb => ?_⟩
    rcases mem_repair hb with hb | hb
    · exact he.2 b hb
    · simp only [hreplacement, List.mem_cons, List.not_mem_nil, or_false] at hb
      rcases hb with rfl | rfl | rfl <;> rfl

end Expression

/-- An assignment as characters assigns the same expression, up to stray bytes. -/
theorem repair_assignment {target : Address} {e : Expression Factor} (htarget : target.Valid)
    (he : e.Valid context) :
    repair (target.words.flatten ++ ofString " := " ++ e.text) =
      target.words.flatten ++ ofString " := " ++ e.repair.text := by
  have hlabel : IsAscii target.words.flatten := isAscii_flatten (Address.isAscii_words htarget)
  have hmark : IsAscii (ofString " := ") := by
    have hbytes : ofString " := " = [0x20, 0x3A, 0x3D, 0x20] := by decide +kernel
    rw [hbytes]
    simp [IsAscii]
  rw [List.append_assoc, hlabel.repair_append, hmark.repair_append, Expression.text_repair he,
    List.append_assoc]

end Spreadsheet.Formula
