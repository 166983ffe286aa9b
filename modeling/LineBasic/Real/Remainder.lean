-- The remainder of a division that truncates its quotient. The result is
-- exact and has the sign of the dividend.
import LineBasic.Real.Binary

namespace LineBasic.Real

/-- A zero divisor, an infinite dividend and a missing number have no remainder. An infinite
divisor leaves the dividend as it is. -/
def remainder (x y : Float) : Float :=
  match read x, read y with
  | .nan, _ | _, .nan | .infinite _, _ => nan
  | .finite .., .infinite _ => x
  | .finite negative m e, .finite _ n f =>
    if n = 0 then nan
    else if m = 0 then x
    else
      let (dividend, divisor, least) := align m e n f
      ofBinary negative (dividend % divisor) least

end LineBasic.Real
