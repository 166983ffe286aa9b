-- Points of the plane and the window of it that a screen shows.

namespace LineBasic

structure Point where
  x : Int
  y : Int
deriving DecidableEq, Inhabited

namespace Screen

def width : Nat := 320

def height : Nat := 200

end Screen

namespace Point

/-- The point lies on the screen. -/
def visible (p : Point) : Bool :=
  0 ≤ p.x && p.x < Screen.width && 0 ≤ p.y && p.y < Screen.height

/-- The place of a visible point among the pixels, row by row. -/
def place (p : Point) : Nat := p.y.toNat * Screen.width + p.x.toNat

end Point

/-- The whole numbers from `low` to `high`, both included. -/
def between (low high : Int) : List Int :=
  (List.range (high - low + 1).toNat).map fun i => low + (i : Nat)

end LineBasic
