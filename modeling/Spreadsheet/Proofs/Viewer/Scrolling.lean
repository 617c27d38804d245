import Spreadsheet.Viewer.Geometry
import Spreadsheet.Proofs.Word

/-! # Scrolling to the cursor

Scrolling moves the view so that the row of the cursor is on the screen. The view is moved by
columns as if as many of them fitted on the screen as did before. Columns have widths of their own,
so the column of the cursor is on the screen afterwards only if the columns that come to stand
before it are not too wide.
-/
namespace Spreadsheet.Viewer

section Fitting

variable {room used : Int64} {ws : List Int64} {n : Nat}

/-- A number of columns fits into the room exactly if there are as many and no total on the way
exceeds the room. -/
theorem le_fitting_iff : n ≤ fitting room used ws ↔
    n ≤ ws.length ∧ ∀ k < n, (ws.take (k + 1)).foldl (· + ·) used ≤ room := by
  induction ws generalizing used n with
  | nil => simp +contextual [fitting]
  | cons w ws ih =>
    cases n with
    | zero => simp
    | succ n =>
      rw [fitting, Nat.forall_lt_succ_left]
      simp only [List.take_succ_cons, List.foldl_cons, List.take_zero, List.foldl_nil,
        List.length_cons, Nat.add_le_add_iff_right]
      split
      · next h => simp [Int64.not_le.mpr h]
      · next h =>
        rw [Nat.add_le_add_iff_right, ih]
        simp [Int64.not_lt.mp h]

theorem fitting_le : fitting room used ws ≤ ws.length := (le_fitting_iff.mp le_rfl).1

/-- Columns side by side fit into the room: no total of the first few of their widths exceeds it.
Totals are words and wrap around. -/
def Fit (room : Int64) (ws : List Int64) : Prop :=
  ∀ k < ws.length, (ws.take (k + 1)).foldl (· + ·) 0 ≤ room

instance : Decidable (Fit room ws) := inferInstanceAs (Decidable (∀ k < ws.length, _))

theorem le_fitting_iff_fit (hn : n ≤ ws.length) : n ≤ fitting room 0 ws ↔ Fit room (ws.take n) := by
  rw [le_fitting_iff, Fit, List.length_take, Nat.min_eq_left hn, and_iff_right hn]
  refine forall₂_congr fun k hk => ?_
  rw [List.take_take, Nat.min_eq_left hk]

end Fitting

section Following

variable {view cur shown size : Int64} {o c n m : Int}

/-- Where a view that starts at `o` and shows `n` rows or columns is moved for the cursor `c`. Near
the end of the words a view that has the cursor in it is moved too. -/
def followed (o c n : Int) : Int :=
  if c < o then c else if c < o + n ∧ o + n < 2 ^ 63 then o else max 0 (c - n + 1)

theorem toInt_follow (hview : 0 ≤ view.toInt) (hshown : 1 ≤ shown.toInt) (hcur : 0 ≤ cur.toInt)
    (hsize : cur.toInt < size.toInt) :
    (min (max 0 (follow view cur shown)) (max 0 (size - 1))).toInt =
      followed view.toInt cur.toInt shown.toInt := by
  have hmost := size.toInt_lt
  have hview' := view.toInt_lt
  have hshown' := shown.toInt_lt
  have hlast : (size - 1).toInt = size.toInt - 1 := toInt_sub_one (by omega)
  have hback : (cur - shown + 1).toInt = cur.toInt - shown.toInt + 1 := by
    have hless : (cur - shown).toInt = cur.toInt - shown.toInt := toInt_sub_eq (by omega) (by omega)
    rw [toInt_add_one (by omega), hless]
  have hend : (view + shown).toInt ≤ cur.toInt ↔
      ¬ (cur.toInt < view.toInt + shown.toInt ∧ view.toInt + shown.toInt < 2 ^ 63) := by
    by_cases hwrap : view.toInt + shown.toInt < 2 ^ 63
    · rw [toInt_add_eq (by omega) hwrap]
      omega
    · rw [toInt_add_of_le (by omega)]
      omega
  rw [toInt_min, toInt_max, toInt_max, Int64.toInt_zero, hlast, follow, followed]
  simp only [Int64.lt_iff_toInt_lt, Int64.le_iff_toInt_le, hend]
  split_ifs <;> omega

theorem followed_nonneg (ho : 0 ≤ o) (hc : 0 ≤ c) : 0 ≤ followed o c n := by
  rw [followed]
  split_ifs <;> omega

theorem followed_le (hc : 0 ≤ c) (hn : 1 ≤ n) : followed o c n ≤ c := by
  rw [followed]
  split_ifs <;> omega

theorem lt_followed_add (hn : 1 ≤ n) : c < followed o c n + n := by
  rw [followed]
  split_ifs <;> omega

/-- Following the cursor again with as many rows changes nothing, except after a jump backwards to
where the rows shown run past the end of the words. -/
theorem followed_followed_iff (hc : 0 ≤ c) (hc' : c < 2 ^ 63 - 1) (hn : 1 ≤ n) (hn' : n < 2 ^ 63) :
    followed (followed o c n) c n = followed o c n ↔ o ≤ c ∨ c + n < 2 ^ 63 := by
  simp only [followed]
  split_ifs <;> omega

/-- Following the cursor changes nothing exactly if the cursor is in view. -/
theorem followed_eq_self_iff (ho : 0 ≤ o) (hc : o ≤ c) (hn : o + n < 2 ^ 63) :
    followed o c n = o ↔ c < o + n := by
  rw [followed]
  split_ifs <;> omega

/-- If another number of columns is shown from where the view is moved, the cursor is in view if it
was before, or if no fewer columns are shown. -/
theorem lt_followed_add_iff (ho : 0 ≤ o) (hwords : o ≤ c → o + n < 2 ^ 63) (hm : 1 ≤ m)
    (hsame : followed o c n = o → m = n) :
    c < followed o c n + m ↔ c < o + n ∨ n ≤ m := by
  rw [followed] at hsame ⊢
  split_ifs at hsame ⊢ <;> omega

end Following

variable {v : Viewer} {width height rows cols : Int64} {col n : Nat}

def room (v : Viewer) (width : Int64) : Int64 := max 1 (width - v.layout.gutter)

def rowsShown (v : Viewer) (height : Int64) : Int64 := max 1 (height - v.layout.statusLines - 1)

theorem one_le_rowsShown : 1 ≤ (v.rowsShown height).toInt := by
  rw [rowsShown, toInt_max]
  exact le_max_left ..

def columnsFrom (v : Viewer) (width : Int64) (col : Nat) : Nat :=
  max 1 (fitting (v.room width) 0 (v.widths.toList.drop col))

def columnsShown (v : Viewer) (width : Int64) : Int64 :=
  max 1 (Int64.ofNat (fitting (v.room width) 0 (v.widths.toList.drop v.corner.col.toInt.toNat)))

theorem one_le_columnsFrom : 1 ≤ v.columnsFrom width col := Nat.le_max_left ..

theorem add_columnsFrom_le (h : col < v.widths.size) :
    col + v.columnsFrom width col ≤ v.widths.size := by
  have hfit : fitting (v.room width) 0 (v.widths.toList.drop col) ≤ _ := fitting_le
  rw [List.length_drop, Array.length_toList] at hfit
  rw [columnsFrom]
  omega

theorem le_columnsFrom_iff (h : col + n ≤ v.widths.size) (hn : 1 ≤ n) :
    n ≤ v.columnsFrom width col ↔ n = 1 ∨ Fit (v.room width) ((v.widths.toList.drop col).take n) := by
  have hlength : n ≤ (v.widths.toList.drop col).length := by
    rw [List.length_drop, Array.length_toList]
    omega
  rw [← le_fitting_iff_fit hlength, columnsFrom]
  omega

/-- The widths of the last `n` columns up to a column. -/
def widthsUpTo (v : Viewer) (col n : Int64) : List Int64 :=
  (v.widths.toList.drop (col.toInt - n.toInt + 1).toNat).take n.toInt.toNat

/-- A cell is within the rows and columns that fit on the screen from the corner of the view. -/
def Shows (v : Viewer) (width height : Int64) (r : Ref) : Prop :=
  ∃ rows cols, v.capacity width height = .ok (rows, cols) ∧
    (v.corner.row.toInt ≤ r.row.toInt ∧ r.row.toInt < v.corner.row.toInt + rows.toInt) ∧
    v.corner.col.toInt ≤ r.col.toInt ∧ r.col.toInt < v.corner.col.toInt + cols.toInt

theorem shows_iff {r : Ref} (h : v.capacity width height = .ok (rows, cols)) :
    v.Shows width height r ↔
      (v.corner.row.toInt ≤ r.row.toInt ∧ r.row.toInt < v.corner.row.toInt + rows.toInt) ∧
        v.corner.col.toInt ≤ r.col.toInt ∧ r.col.toInt < v.corner.col.toInt + cols.toInt := by
  constructor
  · rintro ⟨rows', cols', hcapacity, hshown⟩
    cases h.symm.trans hcapacity
    exact hshown
  · exact fun hshown => ⟨rows, cols, h, hshown⟩

/-- The cursor is in the grid, the columns of which words can count, and the view starts at no
negative coordinate. -/
structure Framed (v : Viewer) : Prop where
  row : 0 ≤ v.cursor.row.toInt ∧ v.cursor.row.toInt < v.rows.toInt
  col : 0 ≤ v.cursor.col.toInt ∧ v.cursor.col.toInt < v.widths.size
  corner : 0 ≤ v.corner.row.toInt ∧ 0 ≤ v.corner.col.toInt
  size : (v.widths.size : Int) < 2 ^ 63

namespace Framed

theorem capacity_eq (h : v.Framed) :
    v.capacity width height = .ok (v.rowsShown height, v.columnsShown width) := by
  rw [capacity, if_neg (not_neg_of_toInt h.corner.2)]
  rfl

theorem toInt_columnsShown (h : v.Framed) :
    (v.columnsShown width).toInt = v.columnsFrom width v.corner.col.toInt.toNat := by
  have hsize := h.size
  have hfit : fitting (v.room width) 0 (v.widths.toList.drop v.corner.col.toInt.toNat) ≤ _ :=
    fitting_le
  rw [List.length_drop, Array.length_toList] at hfit
  rw [columnsShown, toInt_max, Int64.toInt_one, Int64.toInt_ofNat_of_lt (by omega), columnsFrom]
  omega

theorem one_le_columnsShown (h : v.Framed) (width : Int64) : 1 ≤ (v.columnsShown width).toInt := by
  rw [h.toInt_columnsShown]
  exact Int.ofNat_le.mpr one_le_columnsFrom

theorem corner_add_lt (h : v.Framed) (width : Int64)
    (hle : v.corner.col.toInt ≤ v.cursor.col.toInt) :
    v.corner.col.toInt + (v.columnsShown width).toInt < 2 ^ 63 := by
  have hcursor := h.col
  have hcorner := h.corner.2
  have hsize := h.size
  have hwithin : v.corner.col.toInt.toNat + v.columnsFrom width _ ≤ v.widths.size :=
    add_columnsFrom_le (by omega)
  rw [h.toInt_columnsShown]
  omega

/-- Scrolling moves nothing but the corner of the view. -/
theorem exists_scrollToCursor (h : v.Framed) (width height : Int64) :
    ∃ corner, v.scrollToCursor width height = .ok { v with corner } ∧
      corner.row.toInt =
        followed v.corner.row.toInt v.cursor.row.toInt (v.rowsShown height).toInt ∧
      corner.col.toInt =
        followed v.corner.col.toInt v.cursor.col.toInt (v.columnsShown width).toInt := by
  have hcount : v.columnCount.toInt = v.widths.size :=
    Int64.toInt_ofNat_of_lt (by have := h.size; omega)
  refine ⟨_, by rw [scrollToCursor, h.capacity_eq]; rfl, ?_, ?_⟩
  · exact toInt_follow h.corner.1 one_le_rowsShown h.row.1 h.row.2
  · exact toInt_follow h.corner.2 (h.one_le_columnsShown width) h.col.1 (hcount ▸ h.col.2)

/-- Scrolling changes nothing exactly if following the cursor moves neither coordinate. -/
theorem scrollToCursor_eq_self_iff (h : v.Framed) : v.scrollToCursor width height = .ok v ↔
    followed v.corner.row.toInt v.cursor.row.toInt (v.rowsShown height).toInt =
        v.corner.row.toInt ∧
      followed v.corner.col.toInt v.cursor.col.toInt (v.columnsShown width).toInt =
        v.corner.col.toInt := by
  obtain ⟨corner, hscroll, hrow, hcol⟩ := h.exists_scrollToCursor width height
  rw [hscroll, ← hrow, ← hcol, Int64.toInt_inj, Int64.toInt_inj]
  constructor
  · intro hsame
    have hcorner : corner = v.corner := congrArg Viewer.corner (Except.ok.inj hsame)
    exact ⟨congrArg Ref.row hcorner, congrArg Ref.col hcorner⟩
  · rintro ⟨hrow, hcol⟩
    have hcorner : corner = v.corner := by
      cases corner
      cases hrow
      cases hcol
      rfl
    rw [hcorner]

theorem moved (h : v.Framed) {corner : Ref} {n m : Int}
    (hrow : corner.row.toInt = followed v.corner.row.toInt v.cursor.row.toInt n)
    (hcol : corner.col.toInt = followed v.corner.col.toInt v.cursor.col.toInt m) :
    { v with corner }.Framed where
  row := h.row
  col := h.col
  corner := ⟨hrow ▸ followed_nonneg h.corner.1 h.row.1, hcol ▸ followed_nonneg h.corner.2 h.col.1⟩
  size := h.size

/-- The column of the cursor is shown after scrolling exactly if it was not right of those shown
before, or if the columns that come to stand up to it fit on the screen. -/
theorem lt_followed_add_columnsFrom_iff (h : v.Framed) (hcols : v.columnsShown width = cols) :
    v.cursor.col.toInt < followed v.corner.col.toInt v.cursor.col.toInt cols.toInt +
        v.columnsFrom width (followed v.corner.col.toInt v.cursor.col.toInt cols.toInt).toNat ↔
      v.cursor.col.toInt < v.corner.col.toInt + cols.toInt ∨ cols = 1 ∨
        Fit (v.room width) (v.widthsUpTo v.cursor.col cols) := by
  subst hcols
  have hcursor := h.col
  have hcorner := h.corner.2
  have hleast := h.one_le_columnsShown width
  rw [lt_followed_add_iff hcorner (h.corner_add_lt width) (Int.ofNat_le.mpr one_le_columnsFrom)
    fun hsame => by rw [hsame, h.toInt_columnsShown]]
  apply or_congr_right'
  intro hout
  have hmoved : followed v.corner.col.toInt v.cursor.col.toInt (v.columnsShown width).toInt =
      v.cursor.col.toInt - (v.columnsShown width).toInt + 1 := by
    rw [followed, if_neg (by omega), if_neg (fun hin => hout hin.1)]
    omega
  have hone : v.columnsShown width = 1 ↔ (v.columnsShown width).toInt.toNat = 1 := by
    rw [← Int64.toInt_inj, Int64.toInt_one]
    omega
  rw [hmoved, hone, widthsUpTo, ← le_columnsFrom_iff (by omega) (by omega)]
  omega

end Framed

/-- Scrolling changes only the corner of the view and brings the row of the cursor onto the screen.
Its column is on the screen afterwards exactly if it was not right of the screen before, or if as
many columns as were shown fit on the screen up to the one of the cursor, where one column always
fits. Exactly then scrolling again changes nothing, unless the view went back to a row so far down
that its end is no word. -/
theorem scrollToCursor_shows_iff (h : v.Framed) (width height : Int64) :
    ∃ rows cols v', v.capacity width height = .ok (rows, cols) ∧
      v.scrollToCursor width height = .ok v' ∧ v' = { v with corner := v'.corner } ∧
      (v'.Shows width height v.cursor ↔
        v.cursor.col.toInt < v.corner.col.toInt + cols.toInt ∨ cols = 1 ∨
          Fit (v.room width) (v.widthsUpTo v.cursor.col cols)) ∧
      (v'.scrollToCursor width height = .ok v' ↔
        v'.Shows width height v.cursor ∧
          (v.corner.row ≤ v.cursor.row ∨ v.cursor.row.toInt + rows.toInt < 2 ^ 63)) := by
  obtain ⟨corner, hscroll, hrow, hcol⟩ := h.exists_scrollToCursor width height
  have hmoved : { v with corner }.Framed := h.moved hrow hcol
  have hrow_le : corner.row.toInt ≤ v.cursor.row.toInt :=
    hrow ▸ followed_le h.row.1 one_le_rowsShown
  have hrow_lt : v.cursor.row.toInt < corner.row.toInt + (v.rowsShown height).toInt :=
    hrow ▸ lt_followed_add one_le_rowsShown
  have hcol_le : corner.col.toInt ≤ v.cursor.col.toInt :=
    hcol ▸ followed_le h.col.1 (h.one_le_columnsShown width)
  have hshows : { v with corner }.Shows width height v.cursor ↔
      v.cursor.col.toInt < corner.col.toInt + ({ v with corner }.columnsShown width).toInt := by
    rw [shows_iff hmoved.capacity_eq]
    exact ⟨fun hshown => hshown.2.2, fun hlt => ⟨⟨hrow_le, hrow_lt⟩, hcol_le, hlt⟩⟩
  refine ⟨_, _, { v with corner }, h.capacity_eq, hscroll, rfl, ?_, ?_⟩
  · rw [hshows, hmoved.toInt_columnsShown, hcol]
    exact h.lt_followed_add_columnsFrom_iff rfl
  · have hstays : followed corner.col.toInt v.cursor.col.toInt _ = corner.col.toInt ↔ _ :=
      followed_eq_self_iff hmoved.corner.2 hcol_le (hmoved.corner_add_lt width hcol_le)
    have hagain : followed corner.row.toInt v.cursor.row.toInt (v.rowsShown height).toInt =
        corner.row.toInt ↔ v.corner.row.toInt ≤ v.cursor.row.toInt ∨
          v.cursor.row.toInt + (v.rowsShown height).toInt < 2 ^ 63 := by
      have hmost := v.rows.toInt_lt
      have hrows := h.row
      rw [hrow]
      exact followed_followed_iff h.row.1 (by omega) one_le_rowsShown (Int64.toInt_lt _)
    rw [hmoved.scrollToCursor_eq_self_iff, hshows, Int64.le_iff_toInt_le, ← hagain, ← hstays]
    exact and_comm

/-- An empty grid with the cursor in its sixth column. -/
def ofWidths (widths : Array Int64) : Viewer :=
  { ofSheet { detectsCycles := true } 4 false with widths, cursor := ⟨0, 5⟩ }

/-- Four columns are shown, and the four up to the cursor fit as well. -/
theorem scrollToCursor_shows_narrow : (ofWidths #[6, 6, 4, 4, 4, 7, 4, 4]).Framed ∧
    ∃ v', (ofWidths #[6, 6, 4, 4, 4, 7, 4, 4]).scrollToCursor 25 8 = .ok v' ∧
      v'.corner = ⟨0, 2⟩ ∧ v'.Shows 25 8 ⟨0, 5⟩ ∧ v'.scrollToCursor 25 8 = .ok v' := by
  have hframed : (ofWidths #[6, 6, 4, 4, 4, 7, 4, 4]).Framed :=
    ⟨by decide, by decide, by decide, by decide⟩
  have hcapacity : (ofWidths #[6, 6, 4, 4, 4, 7, 4, 4]).capacity 25 8 = .ok (5, 4) := by decide
  obtain ⟨rows, cols, v', hcapacity', hscroll, -, hshows, hagain⟩ :=
    scrollToCursor_shows_iff hframed 25 8
  cases hcapacity.symm.trans hcapacity'
  have hshown := hshows.mpr (.inr (.inr (by decide)))
  refine ⟨hframed, v', hscroll, ?_, hshown, hagain.mpr ⟨hshown, .inl (by decide)⟩⟩
  cases hscroll
  decide

/-- With a wide column at the cursor, the columns that take the place of those shown do not fit: the
cursor is off the screen after scrolling, and scrolling again goes on. -/
theorem scrollToCursor_misses_wide : (ofWidths #[4, 4, 4, 4, 4, 17, 4, 4]).Framed ∧
    (ofWidths #[4, 4, 4, 4, 4, 17, 4, 4]).widths.toList.all (minimumWidth ≤ ·) ∧
    ∃ v', (ofWidths #[4, 4, 4, 4, 4, 17, 4, 4]).scrollToCursor 25 8 = .ok v' ∧
      v'.capacity 25 8 = .ok (5, 4) ∧ v'.corner = ⟨0, 1⟩ ∧ ¬ v'.Shows 25 8 ⟨0, 5⟩ ∧
      v'.scrollToCursor 25 8 ≠ .ok v' := by
  have hcapacity : { ofWidths #[4, 4, 4, 4, 4, 17, 4, 4] with corner := ⟨0, 1⟩ }.capacity 25 8 =
      .ok (5, 4) := by decide
  refine ⟨⟨by decide, by decide, by decide, by decide⟩, by decide,
    { ofWidths #[4, 4, 4, 4, 4, 17, 4, 4] with corner := ⟨0, 1⟩ }, rfl, hcapacity, rfl, ?_, ?_⟩
  · rw [shows_iff hcapacity]
    decide
  · intro hagain
    exact absurd (congrArg (fun v : Viewer => v.corner.col) (Except.ok.inj hagain)) (by decide)

end Spreadsheet.Viewer
