-- The pixels of shapes. A shape gives a list of points, and only points on
-- the screen are ever painted.
import LineBasic.Integer
import LineBasic.Screen.Segment

namespace LineBasic.Figure

/-! ## Rows and columns -/

/-- The visible part of a row between two columns, in either order. -/
def span (x1 x2 y : Int) : List Point :=
  if 0 ≤ y ∧ y < Screen.height then
    (between (max (min x1 x2) 0) (min (max x1 x2) (Screen.width - 1))).map fun x => ⟨x, y⟩
  else []

/-- The visible part of a column between two rows, in either order. -/
def column (x y1 y2 : Int) : List Point :=
  if 0 ≤ x ∧ x < Screen.width then
    (between (max (min y1 y2) 0) (min (max y1 y2) (Screen.height - 1))).map fun y => ⟨x, y⟩
  else []

/-! ## Rectangles -/

/-- The last of `length` places from `first` on. The length less one has to be
an INTEGER; the sum stops at the end of the range. -/
def lastPlace? (first length : Int64) : Option Int64 :=
  let steps := length.toInt - 1
  if Real.fits steps then some (Real.saturate (first.toInt + steps)) else none

def rectangle? (x y width height : Int64) (filled : Bool) : Option (List Point) :=
  if width ≤ 0 ∨ height ≤ 0 then some []
  else do
    let left := x.toInt
    let top := y.toInt
    let right := (← lastPlace? x width).toInt
    let bottom := (← lastPlace? y height).toInt
    return if filled then
      (between (max top 0) (min bottom (Screen.height - 1))).flatMap (span left right)
    else
      span left right top ++ span left right bottom ++
        column left top bottom ++ column right top bottom

/-- Nothing is drawn if a corner cannot be worked out. -/
def rectangle (x y width height : Int64) (filled : Bool) : List Point :=
  (rectangle? x y width height filled).getD []

/-! ## Ovals -/

/-- The distances from a centre, up to a radius, that stay on an axis of
`size` pixels. All sums stop at the ends of the INTEGER range. -/
def reach (centre : Int64) (radius : Int64) (size : Nat) : List Int :=
  let low := max (-radius.toInt) (Real.saturate (-centre.toInt)).toInt
  let high := min radius.toInt (Real.saturate (size - 1 - centre.toInt)).toInt
  between low high

def square (x : Float) : Float := x * x

/-- Inside an oval around the origin, the rim included. -/
def inside (rx ry dx dy : Float) : Bool := square (dx / rx) + square (dy / ry) ≤ 1

/-- Inside, and the next pixel outward along one of the axes is outside. -/
def onRim (rx ry dx dy : Float) : Bool :=
  inside rx ry dx dy &&
    (square ((dx.abs + 1) / rx) + square (dy / ry) > 1 ||
      square (dx / rx) + square ((dy.abs + 1) / ry) > 1)

def oval (x y rx ry : Int64) (filled : Bool) : List Point :=
  let a := Real.ofInteger (max (Integer.abs rx) 1)
  let b := Real.ofInteger (max (Integer.abs ry) 1)
  let columns := (reach x (Real.toInteger a) Screen.width).map fun d => (d, Float.ofInt d)
  (reach y (Real.toInteger b) Screen.height).flatMap fun dy =>
    let v := Float.ofInt dy
    columns.filterMap fun (dx, u) =>
      if if filled then inside a b u v else onRim a b u v then
        some ⟨x.toInt + dx, y.toInt + dy⟩
      else none

/-! ## Triangles -/

/-- Twice the area of the triangle of three spots, with its sign. -/
def area (p q r : Spot) : Float := (q.x - p.x) * (r.y - p.y) - (q.y - p.y) * (r.x - p.x)

/-- A spot inside a triangle lies on one and the same side of its three edges. -/
def covers (a b c p : Spot) : Bool :=
  let u := area b c p
  let v := area c a p
  let w := area a b p
  (u ≥ 0 && v ≥ 0 && w ≥ 0) || (u ≤ 0 && v ≤ 0 && w ≤ 0)

def triangle (x1 y1 x2 y2 x3 y3 : Int64) (filled : Bool) : List Point :=
  let a : Spot := ⟨Real.ofInteger x1, Real.ofInteger y1⟩
  let b : Spot := ⟨Real.ofInteger x2, Real.ofInteger y2⟩
  let c : Spot := ⟨Real.ofInteger x3, Real.ofInteger y3⟩
  let body :=
    if filled then
      let left := max (min x1 (min x2 x3)).toInt 0
      let right := min (max x1 (max x2 x3)).toInt (Screen.width - 1)
      let top := max (min y1 (min y2 y3)).toInt 0
      let bottom := min (max y1 (max y2 y3)).toInt (Screen.height - 1)
      let columns := (between left right).map fun x => (x, Float.ofInt x)
      (between top bottom).flatMap fun y =>
        let v := Float.ofInt y
        columns.filterMap fun (x, u) => if covers a b c ⟨u, v⟩ then some ⟨x, y⟩ else none
    else []
  body ++ Segment.points x1 y1 x2 y2 ++ Segment.points x2 y2 x3 y3 ++ Segment.points x3 y3 x1 y1

/-! ## Arcs -/

def pi : Float := 3.14159265358979323846

/-- One degree in radians. -/
def degree : Float := pi / 180

/-- Most steps of one arc. -/
def maxArcSteps : Float := 65536

/-- The greater of two REALs; a number wins over none. -/
def greater (x y : Float) : Float := if x.isNaN then y else if x < y then y else x

def arcSteps (radius sweep : Float) : Nat :=
  let steps := greater ((sweep / 360) * radius * pi * 2).ceil 1
  (Real.toInteger (if maxArcSteps < steps then maxArcSteps else steps)).toInt.toNat

/-- Angles are in degrees, counter-clockwise from the x axis. An arc that ends
before it starts goes once around. -/
def arc (x y r : Int64) (start stop : Float) : List Point :=
  let radius := Real.ofInteger (Integer.abs r)
  let sweep := if stop ≥ start then stop - start else stop - start + 360
  let steps := arcSteps radius sweep
  (List.range (steps + 1)).map fun i =>
    let angle := (start + sweep * Float.ofNat i / Float.ofNat steps) * degree
    ⟨x.toInt + (Real.toInteger (radius * angle.cos).round).toInt,
      y.toInt - (Real.toInteger (radius * angle.sin).round).toInt⟩

end LineBasic.Figure
