-- The length of the diagonal of a rectangle, rounded once at the end. No
-- square overflows on the way.
import LineBasic.Real.Binary

namespace LineBasic.Real

/-- The whole square root of `n`, of which `digits` base-four digits are looked at. -/
def rootUpTo : Nat → Nat → Nat
  | 0, _ => 0
  | digits + 1, n =>
    let r := 2 * rootUpTo digits (n / 4)
    if (r + 1) * (r + 1) ≤ n then r + 1 else r

/-- The greatest whole number whose square is at most `n`. -/
def root (n : Nat) : Nat := rootUpTo (n.log2 / 2 + 1) n

/-- The REAL nearest to the root of `square * 4 ^ exponent`. The root is found
to sixty bits and more, and one bit after them tells whether anything is left. -/
def nearestRoot (square : Nat) (exponent : Int) : Float :=
  let more := 60 - square.log2 / 2
  let scaled := square <<< (2 * more)
  let r := root scaled
  let left := if r * r = scaled then 0 else 1
  ofBinary false (2 * r + left) (exponent - more - 1)

def hypotenuse (x y : Float) : Float :=
  match read x, read y with
  | .infinite _, _ | _, .infinite _ => infinity
  | .nan, _ | _, .nan => nan
  | .finite _ m e, .finite _ n f =>
    let (a, b, least) := align m e n f
    nearestRoot (a * a + b * b) least

end LineBasic.Real
