-- Whole numbers at the precision of a REAL, and the way between REAL and
-- INTEGER. A REAL keeps 53 bits of a whole number; an INTEGER has 64 bits and
-- stops at the ends of its range.
import LineBasic.Real.Binary

namespace LineBasic.Real

/-! ## Rounding to 53 bits -/

/-- The nearest whole number with at most 53 significant bits, a tie to the
one whose last kept bit is zero. -/
def nearestNat (n : Nat) : Nat :=
  let unit := 1 <<< (n.log2 - fractionBits)
  let kept := n / unit
  let lost := 2 * (n % unit)
  if lost < unit then kept * unit
  else if unit < lost then (kept + 1) * unit
  else (kept + kept % 2) * unit

/-- The whole number that the REAL nearest to `n` stands for. -/
def nearest (n : Int) : Int :=
  if n < 0 then -(nearestNat n.natAbs : Int) else nearestNat n.natAbs

/-! ## The range of an INTEGER -/

def least : Int := -0x8000000000000000

def greatest : Int := 0x7fffffffffffffff

def fits (n : Int) : Bool := least ≤ n && n ≤ greatest

/-- The INTEGER nearest to a whole number. -/
def saturate (n : Int) : Int64 :=
  if n < least then Int64.minValue else if greatest < n then Int64.maxValue else Int64.ofInt n

/-! ## From REAL to INTEGER and back -/

def ofInteger (n : Int64) : Float := Float.ofInt n.toInt

/-- Drops the fraction and stops at the ends of the range; no number becomes zero. -/
def toInteger (x : Float) : Int64 :=
  let size : Int := x.abs.toUInt64.toNat
  saturate (if x < 0 then -size else size)

/-- Drops the fraction. -/
def truncate (x : Float) : Float := if x < 0 then x.ceil else x.floor

/-- No fraction is left to drop. This fails of an infinity. -/
def isWhole (x : Float) : Bool := x.isFinite && truncate x == x

end LineBasic.Real
