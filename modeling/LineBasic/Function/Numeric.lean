-- The functions on numbers. A REAL whose result is not REAL yields a COMPLEX.
import LineBasic.Value.Convert

namespace LineBasic.Numeric

def abs : Value → Except Error Value
  | .integer n => .ok (.integer (Integer.abs n))
  | .real x => .ok (.real x.abs)
  | .complex z => .ok (.real z.modulus)
  | v => .error (Error.notAccepted "ABS" v.kind)

/-- The sign of a number; a missing number has itself for a sign. -/
def sgn : Value → Except Error Value
  | .integer n => .ok (.integer (Integer.sign n))
  | .real x =>
    .ok (if x.isNaN then .real x
      else if x == 0 then .integer 0
      else .integer (if x > 0 then 1 else -1))
  | v => .error (Error.notAccepted "SGN" v.kind)

/-- The greatest INTEGER that is not above a number. -/
def int : Value → Except Error Value
  | .integer n => .ok (.integer n)
  | v => do (Value.real (← v.toReal).floor).coerce .integer

/-- Most decimal places that a number is rounded to. -/
def maxPlaces : Nat := 15

/-- Rounds to a number of decimal places, a half away from zero. Without
places the result is an INTEGER. -/
def round (x : Float) (places : Int64) : Except Error Value :=
  if places ≤ 0 then (Value.real x.round).coerce .integer
  else
    let factor := Float.ofNat (Nat.pow 10 (min places.toInt.toNat maxPlaces))
    .ok (.real ((x * factor).round / factor))

def sqrt : Value → Except Error Value
  | .complex z => .ok (.complex z.sqrt)
  | v => do
    let x ← v.toReal
    return if x < 0 then .complex ⟨0, (-x).sqrt⟩ else .real x.sqrt

def exp : Value → Except Error Value
  | .complex z => .ok (.complex z.exp)
  | v => do return .real (← v.toReal).exp

def log : Value → Except Error Value
  | .complex z => .ok (.complex z.log)
  | v => do
    let x ← v.toReal
    return if x < 0 then .complex (Complex.ofReal x).log else .real x.log

def sin : Value → Except Error Value
  | .complex z => .ok (.complex z.sin)
  | v => do return .real (← v.toReal).sin

def cos : Value → Except Error Value
  | .complex z => .ok (.complex z.cos)
  | v => do return .real (← v.toReal).cos

end LineBasic.Numeric
