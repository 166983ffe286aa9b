-- How the items of an array with axes lie. The neighbours on the last axis are side
-- by side, and on every other axis they are as far apart as the later axes have
-- items. So the place of a tuple of indexes is below the number of items.
import LineBasic.Proofs.Types

namespace LineBasic

/-! ## Axes -/

namespace Axis

variable {x : Axis} {axes : List Axis}

/-- The number of tuples of indexes on some axes: the product of their lengths. -/
def count : List Axis → Nat
  | [] => 1
  | x :: axes => x.length * count axes

@[simp] theorem count_nil : count [] = 1 := rfl

@[simp] theorem count_cons (x : Axis) (axes : List Axis) :
    count (x :: axes) = x.length * count axes := rfl

/-- Neighbours on each axis are as far apart as the later axes have items. -/
def RowMajor (axes : List Axis) : Prop :=
  ∀ (i : Nat) (x : Axis), axes[i]? = some x → x.stride = count (axes.drop (i + 1))

theorem rowMajor_nil : RowMajor [] := by
  intro i x h
  simp at h

theorem rowMajor_cons : RowMajor (x :: axes) ↔ x.stride = count axes ∧ RowMajor axes := by
  constructor
  · intro h
    constructor
    · exact h 0 x rfl
    · intro i y hy
      exact h (i + 1) y (by simpa using hy)
  · rintro ⟨hx, hrest⟩ i y hy
    cases i with
    | zero =>
      obtain rfl : x = y := by simpa using hy
      simpa using hx
    | succ i => exact hrest i y (by simpa using hy)

/-- How far an index is from the lowest one. -/
def offset (x : Axis) (i : Int64) : Int := i.toInt - x.lower.toInt

/-- The axis has an index. The distance to the lowest one has to fit an INTEGER. -/
def Has (x : Axis) (i : Int64) : Prop :=
  0 ≤ x.offset i ∧ x.offset i < x.length ∧ x.offset i ≤ Real.greatest

instance (x : Axis) (i : Int64) : Decidable (x.Has i) :=
  inferInstanceAs (Decidable (_ ∧ _ ∧ _))

end Axis

namespace Grid

variable {a : Grid Value} {axes : List Axis} {is : List Int64} {n : Nat} {k : Kind}
  {bounds : List (Int64 × Nat)}

/-! ## Laying out -/

/-- The axes that are laid out are the ones asked for, in row-major order. -/
theorem exists_of_layOut (h : layOut bounds = .ok (axes, n)) :
    axes.map (fun x => (x.lower, x.length)) = bounds ∧ Axis.RowMajor axes ∧
      n = Axis.count axes := by
  induction bounds generalizing axes n with
  | nil =>
    cases h
    exact ⟨rfl, Axis.rowMajor_nil, rfl⟩
  | cons b rest ih =>
    obtain ⟨lower, length⟩ := b
    obtain ⟨⟨later, stride⟩, hlater, h⟩ := exists_of_bind_eq_ok h
    obtain ⟨hbounds, hrow, rfl⟩ := ih hlater
    dsimp only at h
    split at h
    · cases h
      refine ⟨?_, ?_, ?_⟩
      · simp [hbounds]
      · exact Axis.rowMajor_cons.2 ⟨rfl, hrow⟩
      · rw [Axis.count_cons, Nat.mul_comm]
    · cases h

/-- A new array with axes has a zero for every tuple of indexes. -/
theorem exists_of_dimensioned (h : dimensioned k bounds = .ok a) :
    a.axes.map (fun x => (x.lower, x.length)) = bounds ∧ Axis.RowMajor a.axes ∧
      Axis.count a.axes ≤ maxItems ∧ a.element = k ∧
      a.items = Array.replicate (Axis.count a.axes) (Value.zero k) := by
  obtain ⟨⟨axes, size⟩, hlayOut, h⟩ := exists_of_bind_eq_ok h
  obtain ⟨hbounds, hrow, rfl⟩ := exists_of_layOut hlayOut
  dsimp only at h
  split at h
  · cases h
  · rename_i hsize
    cases h
    exact ⟨hbounds, hrow, Nat.le_of_not_lt hsize, rfl, rfl⟩

/-! ## Places -/

theorem placeOn_cons (i : Int64) (is : List Int64) (x : Axis) (axes : List Axis) :
    placeOn (i :: is) (x :: axes) =
      if x.Has i then do return (x.offset i).toNat * x.stride + (← placeOn is axes)
      else .error (Error.indexOutOfBounds i.toInt) := rfl

/-- A place is made of the step on the first axis and the place on the later axes. -/
theorem exists_of_placeOn {i : Int64} {x : Axis}
    (h : placeOn (i :: is) (x :: axes) = .ok n) :
    x.Has i ∧ ∃ m, placeOn is axes = .ok m ∧ n = (x.offset i).toNat * x.stride + m := by
  rw [placeOn_cons] at h
  split at h
  · rename_i hhas
    obtain ⟨m, hm, h⟩ := exists_of_bind_eq_ok h
    cases h
    exact ⟨hhas, m, hm, rfl⟩
  · cases h

/-- After a step on one axis there is room for all places on the later ones. -/
theorem step_add_le {x : Axis} {i : Int64} (hhas : x.Has i) (hstride : x.stride = Axis.count axes) :
    (x.offset i).toNat * x.stride + Axis.count axes ≤ Axis.count (x :: axes) := by
  have hoffset : (x.offset i).toNat + 1 ≤ x.length := by
    obtain ⟨hlow, hhigh, -⟩ := hhas
    omega
  rw [hstride, Axis.count_cons]
  calc (x.offset i).toNat * Axis.count axes + Axis.count axes
      = ((x.offset i).toNat + 1) * Axis.count axes := (Nat.succ_mul _ _).symm
    _ ≤ x.length * Axis.count axes := Nat.mul_le_mul_right _ hoffset

/-- The place of a tuple is below the number of tuples. -/
theorem placeOn_lt (hrow : Axis.RowMajor axes) (hlength : is.length = axes.length)
    (h : placeOn is axes = .ok n) : n < Axis.count axes := by
  induction axes generalizing is n with
  | nil =>
    obtain rfl := List.length_eq_zero_iff.1 hlength
    cases h
    exact Nat.zero_lt_one
  | cons x axes ih =>
    obtain ⟨hstride, hrest⟩ := Axis.rowMajor_cons.1 hrow
    cases is with
    | nil => cases hlength
    | cons i is =>
      obtain ⟨hhas, m, hm, rfl⟩ := exists_of_placeOn h
      have hlt := ih hrest (by simpa using hlength) hm
      exact Nat.lt_of_lt_of_le (Nat.add_lt_add_left hlt _) (step_add_le hhas hstride)

theorem isDynamic_of_axes (ha : a.axes ≠ []) : a.isDynamic = false := by
  unfold isDynamic
  simpa using ha

/-- An array with axes takes as many indexes as it has axes. -/
theorem place_of_axes (ha : a.axes ≠ []) (is : List Int64) :
    a.place is = if is.length ≠ a.axes.length then .error Error.wrongSubscriptCount
      else placeOn is a.axes := by
  unfold place
  rw [isDynamic_of_axes ha]
  rfl

theorem place_eq_ok_iff (ha : a.axes ≠ []) :
    a.place is = .ok n ↔ is.length = a.axes.length ∧ placeOn is a.axes = .ok n := by
  rw [place_of_axes ha]
  by_cases hlength : is.length = a.axes.length
  · simp [hlength]
  · simp [hlength]

theorem code_of_placeOn {e : Error} (h : placeOn is axes = .error e) :
    e.code = .subscriptOutOfRange := by
  induction axes generalizing is with
  | nil => cases is <;> cases h
  | cons x axes ih =>
    cases is with
    | nil => cases h
    | cons i is =>
      rw [placeOn_cons] at h
      split at h
      · cases hrest : placeOn is axes with
        | ok m =>
          rw [hrest] at h
          cases h
        | error e' =>
          rw [hrest] at h
          cases h
          exact ih hrest
      · cases h
        rfl

/-- Subscripts that an array with axes does not take are out of range, whatever is wrong. -/
theorem code_of_place (ha : a.axes ≠ []) {e : Error} (h : a.place is = .error e) :
    e.code = .subscriptOutOfRange := by
  rw [place_of_axes ha] at h
  split at h
  · cases h
    rfl
  · exact code_of_placeOn h

end Grid

end LineBasic
