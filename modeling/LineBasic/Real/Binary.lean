-- A REAL as a whole number times a power of two. Taking a REAL apart loses
-- nothing, and putting it together again rounds to the nearest REAL, a tie
-- to the one with the even mantissa.

namespace LineBasic.Real

/-- What the 64 bits of a REAL stand for. -/
inductive Reading where
  | nan
  | infinite (negative : Bool)
  /-- The number `mantissa * 2 ^ exponent`, negated if `negative`. -/
  | finite (negative : Bool) (mantissa : Nat) (exponent : Int)
deriving DecidableEq

/-- Bits of the mantissa that are stored. -/
def fractionBits : Nat := 52

/-- The exponent of the smallest REALs. -/
def leastExponent : Int := -1074

/-- Takes a REAL apart. -/
def read (x : Float) : Reading :=
  let bits := x.toBits.toNat
  let fraction := bits % (1 <<< fractionBits)
  let scale := (bits >>> fractionBits) % 2048
  let negative := bits >>> 63 = 1
  if scale = 2047 then
    if fraction = 0 then .infinite negative else .nan
  else if scale = 0 then .finite negative fraction leastExponent
  else .finite negative (fraction + (1 <<< fractionBits)) (leastExponent + (scale - 1 : Nat))

/-- The REAL nearest to `mantissa * 2 ^ exponent`. -/
def ofBinary (negative : Bool) (mantissa : Nat) (exponent : Int) : Float :=
  let size :=
    match exponent with
    | .ofNat e => Float.ofNat (mantissa <<< e)
    | .negSucc e => Float.ofScientific (mantissa * Nat.pow 5 (e + 1)) true (e + 1)
  if negative then -size else size

/-- The two mantissas of a pair of numbers once both have the lesser exponent. -/
def align (m : Nat) (e : Int) (n : Nat) (f : Int) : Nat × Nat × Int :=
  let least := min e f
  (m <<< (e - least).toNat, n <<< (f - least).toNat, least)

def infinity : Float := 1.0 / 0.0

def nan : Float := 0.0 / 0.0

def isNegative (x : Float) : Bool := x.toBits.toNat >>> 63 = 1

end LineBasic.Real
