import Spreadsheet.Text.Blank
import Mathlib.Data.List.Infix

/-! # Trimming

A visible byte belongs to no blank, so trimming stops at it from either side. A text that ends in a
visible byte, or is empty, keeps its end.
-/
namespace Spreadsheet.Text

/-- A printable ASCII byte other than the space. -/
def isVisible (b : UInt8) : Bool := 0x21 ≤ b && b ≤ 0x7E

theorem blanks_ne_nil : ∀ w ∈ blanks, w ≠ [] := by decide

theorem blanks_not_visible : ∀ w ∈ blanks, ∀ b ∈ w, isVisible b = false := by decide +kernel

theorem dropWords_suffix (ws : List Text) (k : Nat) (t : Text) : dropWords ws k t <:+ t := by
  fun_induction dropWords ws k t with
  | case1 k => exact List.suffix_rfl
  | case2 k b r ih => exact ih.trans (List.suffix_cons b r)
  | case3 b r h => exact List.suffix_rfl
  | case4 b r k h ih => exact ih.trans (List.suffix_cons b r)

theorem trimStart_suffix (t : Text) : trimStart t <:+ t := dropWords_suffix blanks 0 t

theorem trimEnd_prefix_self (t : Text) : trimEnd t <+: t := by
  unfold trimEnd
  split
  · rw [← List.reverse_suffix, List.reverse_reverse]
    exact dropWords_suffix _ 0 t.reverse
  · exact List.prefix_rfl

theorem length_trim_le (t : Text) : (trim t).length ≤ t.length :=
  (trimEnd_prefix_self _).length_le.trans (trimStart_suffix t).length_le

/-- A text that starts with a visible byte loses nothing to words without visible bytes. -/
theorem dropWords_visible {ws : List Text} {b : UInt8} (hne : ∀ w ∈ ws, w ≠ [])
    (hws : ∀ w ∈ ws, ∀ x ∈ w, isVisible x = false) (hb : isVisible b) (t : Text) :
    dropWords ws 0 (b :: t) = b :: t := by
  have hnone : ws.find? (·.isPrefixOf (b :: t)) = none := by
    rw [List.find?_eq_none]
    intro w hw hpre
    obtain ⟨c, v, rfl⟩ := List.exists_cons_of_ne_nil (hne w hw)
    have hc := (List.cons_prefix_cons.mp (List.isPrefixOf_iff_prefix.mp hpre)).1
    have hv := hws _ hw c (by simp)
    rw [hc, hb] at hv
    cases hv
  rw [dropWords, startWidth, hnone]

@[simp] theorem trimStart_visible {b : UInt8} (hb : isVisible b) (t : Text) :
    trimStart (b :: t) = b :: t :=
  dropWords_visible blanks_ne_nil blanks_not_visible hb t

def PrefixFree (ws : List Text) : Prop := ∀ v ∈ ws, ∀ w ∈ ws, v <+: w → v = w

theorem blanks_prefix_free : PrefixFree blanks := by
  unfold PrefixFree
  decide

theorem startWidth_of_prefix {ws : List Text} {w t : Text} (hfree : PrefixFree ws) (hw : w ∈ ws)
    (ht : w <+: t) : startWidth ws t = w.length := by
  unfold startWidth
  cases hfind : ws.find? (·.isPrefixOf t) with
  | none =>
    have hnot := List.find?_eq_none.mp hfind w hw
    exact absurd (List.isPrefixOf_iff_prefix.mpr ht) hnot
  | some v =>
    have hv : v ∈ ws := List.mem_of_find?_eq_some hfind
    have hpre := List.find?_some hfind
    have hvt : v <+: t := List.isPrefixOf_iff_prefix.mp hpre
    rcases List.prefix_or_prefix_of_prefix hvt ht with h | h
    · rw [hfree v hv w hw h]
    · rw [hfree w hw v hv h]

theorem exists_word_of_startWidth {ws : List Text} {t : Text} {k : Nat}
    (h : startWidth ws t = k + 1) : ∃ w ∈ ws, w <+: t ∧ w.length = k + 1 := by
  unfold startWidth at h
  cases hfind : ws.find? (·.isPrefixOf t) with
  | none => simp [hfind] at h
  | some w =>
    rw [hfind] at h
    have hpre := List.find?_some hfind
    exact ⟨w, List.mem_of_find?_eq_some hfind, List.isPrefixOf_iff_prefix.mp hpre, h⟩

theorem dropWords_of_startWidth {ws : List Text} {t : Text} (h : startWidth ws t = 0) :
    dropWords ws 0 t = t := by
  cases t with
  | nil => rfl
  | cons b r => rw [dropWords, h]

/-- What is left of a text begins with no blank. -/
theorem startWidth_dropWords (k : Nat) (t : Text) : startWidth blanks (dropWords blanks k t) = 0 := by
  fun_induction dropWords blanks k t with
  | case1 k => decide
  | case2 k b r ih => exact ih
  | case3 b r h => exact h
  | case4 b r k h ih => exact ih

theorem startWidth_trimStart (t : Text) : startWidth blanks (trimStart t) = 0 :=
  startWidth_dropWords 0 t

theorem dropWords_append {b : Text} {k : Nat} (hk : k ≤ b.length)
    (hb : dropWords blanks k b = []) (t : Text) :
    dropWords blanks k (b ++ t) = dropWords blanks 0 t := by
  induction b generalizing k with
  | nil =>
    obtain rfl : k = 0 := by simpa using hk
    rfl
  | cons x r ih =>
    cases k with
    | succ k => exact ih (by simpa using hk) hb
    | zero =>
      cases hwidth : startWidth blanks (x :: r) with
      | zero => simp [dropWords, hwidth] at hb
      | succ k =>
        obtain ⟨w, hw, hpre, hlen⟩ := exists_word_of_startWidth hwidth
        have hrest : dropWords blanks k r = [] := by simpa [dropWords, hwidth] using hb
        have hwide : startWidth blanks (x :: (r ++ t)) = k + 1 := by
          rw [← hlen]
          exact startWidth_of_prefix blanks_prefix_free hw
            (hpre.trans (List.prefix_append (x :: r) t))
        have hle : k ≤ r.length := by
          have := hpre.length_le
          simp only [List.length_cons] at this
          omega
        simpa [dropWords, hwide] using ih hle hrest

/-- Blanks in front of a text are skipped, whatever the text is. -/
theorem trimStart_blank_append {b : Text} (hb : isBlank b) (t : Text) :
    trimStart (b ++ t) = trimStart t :=
  dropWords_append (Nat.zero_le _) (List.isEmpty_iff.mp hb) t

theorem blank_suffix_of_endsBlank {t : Text} (h : endsBlank t) : ∃ w ∈ blanks, w <:+ t := by
  induction t with
  | nil => cases h
  | cons b r ih =>
    have hcases : b :: r ∈ blanks ∨ endsBlank r := by
      unfold endsBlank at h
      split at h <;> simp_all
    rcases hcases with hmem | hend
    · exact ⟨b :: r, hmem, List.suffix_rfl⟩
    · obtain ⟨w, hw, hsuf⟩ := ih hend
      exact ⟨w, hw, hsuf.trans (List.suffix_cons b r)⟩

/-- A text that is empty or ends in a visible byte. -/
def Closed (t : Text) : Prop := ∀ b ∈ t.getLast?, isVisible b

@[simp] theorem closed_nil : Closed [] := by simp [Closed]

theorem Closed.append {t u : Text} (hu : Closed u) (ht : u = [] → Closed t) : Closed (t ++ u) := by
  cases u with
  | nil => simpa using ht rfl
  | cons b r =>
    intro x hx
    rw [List.getLast?_append_of_ne_nil t (List.cons_ne_nil b r)] at hx
    exact hu x hx

theorem Closed.of_append {t u : Text} (h : Closed (t ++ u)) : Closed u := by
  cases u with
  | nil => exact closed_nil
  | cons b r =>
    intro x hx
    exact h x (by rw [List.getLast?_append_of_ne_nil t (List.cons_ne_nil b r)]; exact hx)

theorem Closed.trimEnd_eq {t : Text} (h : Closed t) : trimEnd t = t := by
  unfold trimEnd
  rw [if_neg]
  intro hend
  obtain ⟨w, hw, v, rfl⟩ := blank_suffix_of_endsBlank hend
  have hne := blanks_ne_nil w hw
  have hlast := h (w.getLast hne) (by
    rw [List.getLast?_append_of_ne_nil v hne, List.getLast?_eq_some_getLast hne]; rfl)
  rw [blanks_not_visible w hw _ (List.getLast_mem hne)] at hlast
  cases hlast

/-- Trimming takes the blanks before a visible byte, and no more from a text with a closed end. -/
theorem trim_blank_append {b t : Text} (hb : isBlank b) (ht : Closed t)
    (hhead : ∀ x ∈ t.head?, isVisible x) : trim (b ++ t) = t := by
  rw [trim, trimStart_blank_append hb]
  cases t with
  | nil => rfl
  | cons x r => rw [trimStart_visible (hhead x rfl), ht.trimEnd_eq]

end Spreadsheet.Text
