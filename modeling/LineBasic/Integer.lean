-- INTEGER arithmetic. A result of 64 bits is exact. Past 64 bits the
-- operation goes on at the precision of a REAL and stops at the ends of the
-- range, so no operation traps.
import LineBasic.Real.Precision

namespace LineBasic.Integer

/-- The exact result if it fits, otherwise the nearest INTEGER to the rounded one. -/
def degrade (exact rounded : Int) : Int64 :=
  if Real.fits exact then Int64.ofInt exact else Real.saturate rounded

def add (l r : Int64) : Int64 :=
  degrade (l.toInt + r.toInt) (Real.nearest (Real.nearest l.toInt + Real.nearest r.toInt))

def sub (l r : Int64) : Int64 :=
  degrade (l.toInt - r.toInt) (Real.nearest (Real.nearest l.toInt - Real.nearest r.toInt))

def mul (l r : Int64) : Int64 :=
  degrade (l.toInt * r.toInt) (Real.nearest (Real.nearest l.toInt * Real.nearest r.toInt))

def neg (n : Int64) : Int64 := degrade (-n.toInt) (-Real.nearest n.toInt)

def abs (n : Int64) : Int64 := Real.saturate n.toInt.natAbs

def sign (n : Int64) : Int64 := Int64.ofInt n.toInt.sign

/-- The quotient without its fraction, for a divisor that is not zero. -/
def quotient (l r : Int64) : Int64 := Real.saturate (l.toInt.tdiv r.toInt)

/-- The remainder of that quotient; it has the sign of `l`. -/
def remainder (l r : Int64) : Int64 := Int64.ofInt (l.toInt.tmod r.toInt)

/-- A power with an exponent of 32 bits that fits an INTEGER. The powers of one
and of zero depend on the parity alone. A larger base overflows past an
exponent of 63, so no larger power is formed. -/
def exactPower? (base : Int) (exponent : Nat) : Option Int64 :=
  if 0x100000000 ≤ exponent then none
  else if base.natAbs ≤ 1 then some (Int64.ofInt (base.pow (min exponent (2 + exponent % 2))))
  else if 63 < exponent then none
  else
    let n := base.pow exponent
    if Real.fits n then some (Int64.ofInt n) else none

/-- A power with an exponent that is not negative. -/
def power (base exponent : Int64) : Int64 :=
  match exactPower? base.toInt exponent.toInt.toNat with
  | some n => n
  | none => Real.toInteger ((Real.ofInteger base).pow (Real.ofInteger exponent))

/-- Truth as an INTEGER: all bits set, or none. -/
def ofBool (b : Bool) : Int64 := if b then -1 else 0

end LineBasic.Integer
