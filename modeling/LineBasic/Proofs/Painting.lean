-- What drawing does to the picture. Painting colours the pixels whose points are listed and
-- no others, so a shape is drawn right if the right points are listed. A rectangle lists what
-- can be seen of it. Its far corner may be past the end of the INTEGER range, where it stops,
-- but the end of the range is as far off the screen as all that lies behind it.
import LineBasic.Proofs.Rounding
import LineBasic.Screen.Basic

namespace LineBasic

/-! ## Pixels -/

theorem Point.visible_iff {p : Point} :
    p.visible = true ↔ (0 ≤ p.x ∧ p.x < Screen.width) ∧ 0 ≤ p.y ∧ p.y < Screen.height := by
  simp [visible, and_assoc]

namespace Screen

/-- The point of a pixel. -/
def pointAt (px : Fin width) (py : Fin height) : Point := ⟨px.val, py.val⟩

theorem visible_pointAt (px : Fin width) (py : Fin height) : (pointAt px py).visible = true := by
  rw [Point.visible_iff]
  exact ⟨⟨Int.natCast_nonneg _, Int.ofNat_lt.2 px.isLt⟩, Int.natCast_nonneg _,
    Int.ofNat_lt.2 py.isLt⟩

/-- Every pixel has a place of its own. -/
theorem place_eq_iff {p : Point} (hp : p.visible = true) (px : Fin width) (py : Fin height) :
    p.place = py * width + px ↔ p = pointAt px py := by
  obtain ⟨x, y⟩ := p
  obtain ⟨hx, hy⟩ := Point.visible_iff.1 hp
  have hpx := px.isLt
  unfold Point.place pointAt
  rw [Point.mk.injEq]
  dsimp only at *
  unfold width height at *
  omega

variable {color : UInt32} {pixels : Vector UInt32 (width * height)}

/-- One point colours its own pixel at most. -/
theorem getElem?_plot (p : Point) (px : Fin width) (py : Fin height) :
    (plot color pixels p)[py * width + px]? =
      if pointAt px py = p then some color else pixels[py * width + px]? := by
  unfold plot
  split
  · rename_i hp
    have hplace := place_eq_iff hp px py
    rw [Vector.getElem?_setIfInBounds]
    by_cases hsame : pointAt px py = p
    · have hpx := px.isLt
      have hpy := py.isLt
      rw [if_pos (hplace.2 hsame.symm), if_pos hsame, hplace.2 hsame.symm, if_pos]
      unfold width height at *
      omega
    · rw [if_neg (fun h => hsame (hplace.1 h).symm), if_neg hsame]
  · rename_i hp
    rw [if_neg]
    rintro rfl
    exact hp (visible_pointAt px py)

theorem getElem?_plots (points : List Point) (px : Fin width) (py : Fin height) :
    (points.foldl (plot color) pixels)[py * width + px]? =
      if pointAt px py ∈ points then some color else pixels[py * width + px]? := by
  induction points generalizing pixels with
  | nil => simp
  | cons p rest ih =>
    rw [List.foldl_cons, ih, getElem?_plot]
    by_cases hrest : pointAt px py ∈ rest <;> by_cases hp : pointAt px py = p <;> simp [hrest, hp]

/-- Painting colours the listed pixels and no others. -/
theorem pixel_paint (s : Screen) (points : List Point) (px : Fin width) (py : Fin height) :
    (s.paint points).pixel px py =
      if pointAt px py ∈ points then s.foreground else s.pixel px py := by
  unfold pixel paint
  rw [getElem?_plots]
  split <;> rfl

end Screen

theorem mem_between {low high n : Int} : n ∈ between low high ↔ low ≤ n ∧ n ≤ high := by
  simp only [between, List.mem_map, List.mem_range]
  constructor
  · rintro ⟨i, hi, rfl⟩
    omega
  · intro h
    exact ⟨(n - low).toNat, by omega, by omega⟩

namespace Figure

/-! ## Rows and columns -/

variable {p : Point}

theorem mem_span {x1 x2 y : Int} (hx : x1 ≤ x2) :
    p ∈ span x1 x2 y ↔ p.visible = true ∧ p.y = y ∧ x1 ≤ p.x ∧ p.x ≤ x2 := by
  obtain ⟨px, py⟩ := p
  rw [Point.visible_iff]
  unfold span
  split
  · simp only [List.mem_map, mem_between, Point.mk.injEq]
    constructor
    · rintro ⟨n, hn, rfl, rfl⟩
      omega
    · intro h
      exact ⟨px, by omega, rfl, by omega⟩
  · simp only [List.not_mem_nil, false_iff]
    omega

theorem mem_column {x y1 y2 : Int} (hy : y1 ≤ y2) :
    p ∈ column x y1 y2 ↔ p.visible = true ∧ p.x = x ∧ y1 ≤ p.y ∧ p.y ≤ y2 := by
  obtain ⟨px, py⟩ := p
  rw [Point.visible_iff]
  unfold column
  split
  · simp only [List.mem_map, mem_between, Point.mk.injEq]
    constructor
    · rintro ⟨n, hn, rfl, rfl⟩
      omega
    · intro h
      exact ⟨py, by omega, by omega, rfl⟩
  · simp only [List.not_mem_nil, false_iff]
    omega

variable {left right top bottom : Int}

/-- The rows of a box, one after the other, make up what can be seen of it. -/
theorem mem_rows (hx : left ≤ right) :
    p ∈ (between (max top 0) (min bottom (Screen.height - 1))).flatMap (span left right) ↔
      p.visible = true ∧ (left ≤ p.x ∧ p.x ≤ right) ∧ top ≤ p.y ∧ p.y ≤ bottom := by
  simp only [List.mem_flatMap, mem_between, mem_span hx]
  constructor
  · rintro ⟨row, hrow, hseen, rfl, hcolumns⟩
    exact ⟨hseen, hcolumns, by omega⟩
  · rintro ⟨hseen, hcolumns, hrows⟩
    have hscreen := (Point.visible_iff.1 hseen).2
    exact ⟨p.y, by omega, hseen, rfl, hcolumns⟩

/-- Two rows and two columns make up what can be seen of the border of a box. -/
theorem mem_border (hx : left ≤ right) (hy : top ≤ bottom) :
    p ∈ span left right top ++ span left right bottom ++ column left top bottom ++
        column right top bottom ↔
      p.visible = true ∧ ((left ≤ p.x ∧ p.x ≤ right) ∧ top ≤ p.y ∧ p.y ≤ bottom) ∧
        (p.x = left ∨ p.x = right ∨ p.y = top ∨ p.y = bottom) := by
  simp only [List.mem_append, mem_span hx, mem_column hy]
  by_cases hseen : p.visible = true
  · simp only [hseen, true_and]
    omega
  · simp [hseen]

/-! ## Rectangles -/

variable {x y width height : Int64} {filled : Bool}

/-- The points of a rectangle by exact arithmetic: all in its columns and its rows, or, if it
is not filled, those of them in the first or the last column or in the first or the last row. -/
structure Covers (x y width height : Int64) (filled : Bool) (p : Point) : Prop where
  inX : x.toInt ≤ p.x ∧ p.x < x.toInt + width.toInt
  inY : y.toInt ≤ p.y ∧ p.y < y.toInt + height.toInt
  border : filled = true ∨ p.x = x.toInt ∨ p.x = x.toInt + width.toInt - 1 ∨
    p.y = y.toInt ∨ p.y = y.toInt + height.toInt - 1

theorem covers_iff :
    Covers x y width height filled p ↔
      (x.toInt ≤ p.x ∧ p.x < x.toInt + width.toInt) ∧
      (y.toInt ≤ p.y ∧ p.y < y.toInt + height.toInt) ∧
      (filled = true ∨ p.x = x.toInt ∨ p.x = x.toInt + width.toInt - 1 ∨
        p.y = y.toInt ∨ p.y = y.toInt + height.toInt - 1) :=
  ⟨fun h => ⟨h.inX, h.inY, h.border⟩, fun h => ⟨h.1, h.2.1, h.2.2⟩⟩

instance : Decidable (Covers x y width height filled p) := decidable_of_iff _ covers_iff.symm

theorem not_covers_of_empty (h : width ≤ 0 ∨ height ≤ 0) : ¬ Covers x y width height filled p := by
  rw [Int64.le_iff_toInt_le, Int64.le_iff_toInt_le, Int64.toInt_zero] at h
  intro hp
  have hx := hp.inX
  have hy := hp.inY
  omega

/-- The last place of a side is exact, or it is the end of the range. -/
theorem exists_lastPlace (first length : Int64) (h : 0 < length.toInt) :
    ∃ last, lastPlace? first length = some last ∧
      last.toInt = min (first.toInt + length.toInt - 1) Real.greatest := by
  have hfirst := Integer.toInt_bounds first
  have hlength := Integer.toInt_bounds length
  have hfits : Real.fits (length.toInt - 1) = true := by
    simp only [Real.fits, Bool.and_eq_true, decide_eq_true_eq]
    unfold Real.least Real.greatest at *
    omega
  refine ⟨_, if_pos hfits, ?_⟩
  rw [Integer.toInt_saturate]
  omega

/-- Neither corner takes a number that is no INTEGER. What is listed is what can be seen. -/
theorem exists_rectangle (x y width height : Int64) (filled : Bool) :
    ∃ points, rectangle? x y width height filled = some points ∧
      ∀ p, p ∈ points ↔ p.visible = true ∧ Covers x y width height filled p := by
  unfold rectangle?
  split
  · rename_i hempty
    refine ⟨[], rfl, fun p => ?_⟩
    simp [not_covers_of_empty hempty]
  · rename_i hsize
    rw [Int64.le_iff_toInt_le, Int64.le_iff_toInt_le, Int64.toInt_zero] at hsize
    obtain ⟨right, hright, hlastX⟩ := exists_lastPlace x width (by omega)
    obtain ⟨bottom, hbottom, hlastY⟩ := exists_lastPlace y height (by omega)
    have hx : x.toInt ≤ right.toInt := by
      have := Integer.toInt_bounds x
      omega
    have hy : y.toInt ≤ bottom.toInt := by
      have := Integer.toInt_bounds y
      omega
    rw [hright, hbottom]
    refine ⟨_, rfl, fun p => ?_⟩
    rw [covers_iff]
    -- Where a corner stops at the end of the range, both it and the exact one are off the screen.
    have hfar : p.visible = true → p.x < Real.greatest ∧ p.y < Real.greatest := by
      rw [Point.visible_iff]
      unfold Screen.width Screen.height Real.greatest
      omega
    cases filled with
    | true =>
      rw [if_pos rfl, mem_rows hx]
      refine and_congr_right fun hseen => ?_
      have := hfar hseen
      simp only [true_or, and_true]
      omega
    | false =>
      rw [if_neg (by decide), mem_border hx hy]
      refine and_congr_right fun hseen => ?_
      have := hfar hseen
      simp only [Bool.false_eq_true, false_or]
      omega

/-- After a rectangle is drawn, a pixel has the foreground colour if its point is one of the
rectangle's by exact arithmetic, and its old colour if not, and nothing else of the screen
changed. A rectangle without a width or a height changes nothing, and no number on the way
leaves the INTEGER range. -/
theorem a_rectangle_paints_what_is_visible_of_it (s : Screen) (x y width height : Int64)
    (filled : Bool) :
    let t := s.paint (rectangle x y width height filled)
    (∀ (px : Fin Screen.width) (py : Fin Screen.height), t.pixel px py =
      if Covers x y width height filled (Screen.pointAt px py) then s.foreground
      else s.pixel px py) ∧
    t = { s with pixels := t.pixels } ∧
    (width ≤ 0 ∨ height ≤ 0 → t = s) ∧
    ∃ points, rectangle? x y width height filled = some points := by
  intro t
  obtain ⟨points, hpoints, hmem⟩ := exists_rectangle x y width height filled
  have ht : t = s.paint points := by
    change s.paint ((rectangle? x y width height filled).getD []) = s.paint points
    rw [hpoints, Option.getD_some]
  refine ⟨fun px py => ?_, rfl, fun hempty => ?_, points, hpoints⟩
  · rw [ht, Screen.pixel_paint]
    simp only [hmem, Screen.visible_pointAt, true_and]
  · have hnone : points = [] := by
      refine List.eq_nil_iff_forall_not_mem.2 fun p hp => ?_
      exact not_covers_of_empty hempty ((hmem p).1 hp).2
    rw [ht, hnone]
    rfl

example : rectangle 318 199 9223372036854775807 5 false =
    [⟨318, 199⟩, ⟨319, 199⟩, ⟨318, 199⟩] := by decide

end Figure

end LineBasic
