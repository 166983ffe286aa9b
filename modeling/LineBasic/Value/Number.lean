-- An INTEGER or a REAL: what a FOR loop counts with. Two INTEGERs stay
-- INTEGER, and a REAL on either side makes the result REAL.
import LineBasic.Integer

namespace LineBasic

inductive Number where
  | integer (n : Int64)
  | real (x : Float)
deriving Inhabited

namespace Number

def toReal : Number → Float
  | .integer n => Real.ofInteger n
  | .real x => x

/-- The same type and an equal number; a missing number equals nothing. -/
def same : Number → Number → Bool
  | .integer m, .integer n => m = n
  | .real x, .real y => x == y
  | _, _ => false

def add : Number → Number → Number
  | .integer m, .integer n => .integer (Integer.add m n)
  | l, r => .real (l.toReal + r.toReal)

def isZero : Number → Bool
  | .integer n => n = 0
  | .real x => x == 0

def isNegative : Number → Bool
  | .integer n => n < 0
  | .real x => x < 0

/-- Numbers are compared as REALs, so two INTEGERs are compared by the whole
numbers that their nearest REALs stand for. -/
def le : Number → Number → Bool
  | .integer m, .integer n => Real.nearest m.toInt ≤ Real.nearest n.toInt
  | l, r => l.toReal ≤ r.toReal

/-- Whether a number has not yet passed a limit in the direction of a step.
A step of zero goes up. -/
def within (value limit step : Number) : Bool :=
  if step.isNegative then limit.le value else value.le limit

end Number

end LineBasic
