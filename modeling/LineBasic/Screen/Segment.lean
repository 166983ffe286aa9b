-- Straight lines. A segment is first clipped to the screen, and what is left
-- of it is walked from one end to the other, one pixel at a time.
import LineBasic.Real.Precision
import LineBasic.Screen.Point

namespace LineBasic

/-- A point with REAL coordinates. -/
structure Spot where
  x : Float
  y : Float

namespace Spot

def rightmost : Float := 319

def lowest : Float := 199

/-- Which sides of the screen a spot lies beyond. -/
structure Sides where
  left : Bool
  right : Bool
  top : Bool
  bottom : Bool
deriving DecidableEq

namespace Sides

def any (s : Sides) : Bool := s.left || s.right || s.top || s.bottom

/-- Both lie beyond one and the same side. -/
def share (s t : Sides) : Bool :=
  (s.left && t.left) || (s.right && t.right) || (s.top && t.top) || (s.bottom && t.bottom)

end Sides

def sides (p : Spot) : Sides :=
  { left := p.x < 0
    right := p.x > rightmost
    top := p.y < 0
    bottom := p.y > lowest }

/-- The pixel that a spot lies on. -/
def pixel (p : Spot) : Point :=
  ⟨(Real.toInteger p.x.round).toInt, (Real.toInteger p.y.round).toInt⟩

/-- Where the line through two spots crosses the first of the given sides. -/
def crossing (a b : Spot) (s : Sides) : Spot :=
  if s.top then ⟨a.x + (b.x - a.x) * -a.y / (b.y - a.y), 0⟩
  else if s.bottom then ⟨a.x + (b.x - a.x) * (lowest - a.y) / (b.y - a.y), lowest⟩
  else if s.right then ⟨rightmost, a.y + (b.y - a.y) * (rightmost - a.x) / (b.x - a.x)⟩
  else ⟨0, a.y + (b.y - a.y) * -a.x / (b.x - a.x)⟩

end Spot

namespace Segment

/-- Cuts a segment at the sides of the screen, one side a turn. -/
def clipFrom : Nat → Spot → Spot → Option (Point × Point)
  | 0, _, _ => none
  | turns + 1, a, b =>
    if !a.sides.any && !b.sides.any then some (a.pixel, b.pixel)
    else if a.sides.share b.sides then none
    else if a.sides.any then clipFrom turns (a.crossing b a.sides) b
    else clipFrom turns a (a.crossing b b.sides)

/-- The part of a segment that is on the screen. -/
def clip (x1 y1 x2 y2 : Int64) : Option (Point × Point) :=
  clipFrom 8 ⟨Real.ofInteger x1, Real.ofInteger y1⟩ ⟨Real.ofInteger x2, Real.ofInteger y2⟩

/-- A walk along a segment. `dx` is the distance along x, `dy` that along y
negated, and `error` tells how far the pixel is off the line. -/
structure Walk where
  dx : Int
  dy : Int
  stepX : Int
  stepY : Int
  target : Point
  here : Point
  error : Int

def Walk.start (a b : Point) : Walk :=
  let dx : Int := (b.x - a.x).natAbs
  let dy : Int := -((b.y - a.y).natAbs : Int)
  { dx, dy, stepX := (b.x - a.x).sign, stepY := (b.y - a.y).sign, target := b, here := a
    error := dx + dy }

/-- One pixel on. -/
def Walk.step (w : Walk) : Walk :=
  let twice := 2 * w.error
  let across := w.dy ≤ twice
  let down := twice ≤ w.dx
  { w with
    here := ⟨if across then w.here.x + w.stepX else w.here.x, if down then w.here.y + w.stepY else w.here.y⟩
    error := w.error + (if across then w.dy else 0) + (if down then w.dx else 0) }

/-- The pixels of a walk up to its target. -/
def Walk.points : Nat → Walk → List Point
  | 0, w => [w.here]
  | turns + 1, w => if w.here = w.target then [w.here] else w.here :: Walk.points turns w.step

/-- The pixels from one point to another. A walk takes at most as many steps
as the two distances have together. -/
def trace (a b : Point) : List Point :=
  (Walk.start a b).points ((b.x - a.x).natAbs + (b.y - a.y).natAbs)

/-- The visible pixels of a segment. -/
def points (x1 y1 x2 y2 : Int64) : List Point :=
  match clip x1 y1 x2 y2 with
  | some (a, b) => trace a b
  | none => []

end Segment

end LineBasic
