-- Conversions between the types of values, and the order of values. A number
-- converts to any other numeric type that can hold it; text never converts.
import LineBasic.Error
import LineBasic.Value.Basic

namespace LineBasic

/-- A REAL without its fraction. -/
def integerOfReal (x : Float) : Except Error Int64 :=
  if x.isFinite then .ok (Real.toInteger x) else .error Error.nonFinite

namespace Value

def toReal : Value → Except Error Float
  | .integer n => .ok (Real.ofInteger n)
  | .real x => .ok x
  | .complex z => if z.im == 0 then .ok z.re else .error (Error.cannotConvert .complex .real)
  | .string _ => .error Error.stringToNumber
  | v => .error (Error.cannotConvert v.kind .real)

def toComplex : Value → Except Error Complex
  | .complex z => .ok z
  | v => do return .ofReal (← v.toReal)

/-- The same value as one of another type. -/
def coerce (v : Value) (target : Kind) : Except Error Value :=
  if v.kind = target then .ok v
  else
    match v, target with
    | .integer n, .real => .ok (.real (Real.ofInteger n))
    | .integer n, .complex => .ok (.complex (.ofReal (Real.ofInteger n)))
    | .real x, .integer => do return .integer (← integerOfReal x)
    | .real x, .complex => .ok (.complex (.ofReal x))
    | .complex z, .real =>
      if z.im == 0 then .ok (.real z.re) else .error (Error.cannotConvert .complex .real)
    | .complex z, .integer =>
      if z.im == 0 then do return .integer (← integerOfReal z.re)
      else .error (Error.cannotConvert .complex .integer)
    | .string _, t =>
      .error (if t.isNumeric then Error.stringToNumber else Error.cannotConvert .string t)
    | v, t => .error (Error.cannotConvert v.kind t)

def toInteger (v : Value) : Except Error Int64 := do
  match ← v.coerce .integer with
  | .integer n => .ok n
  | _ => .error (Error.internal "INTEGER COERCION")

/-- A whole number that is not negative. -/
def toCount (v : Value) : Except Error Nat := do
  let n ← v.toInteger
  if n < 0 then .error Error.negativeValue else .ok n.toInt.toNat

def toText : Value → Except Error String
  | .string s => .ok s
  | v => .error (Error.expectedString v.kind)

/-! ## Order -/

/-- The order of two REALs; none if one is no number. -/
def compareReals (x y : Float) : Option Ordering :=
  if x < y then some .lt
  else if x == y then some .eq
  else if y < x then some .gt
  else none

/-- None means unordered: a REAL is no number, or two COMPLEX values differ. -/
def compare : Value → Value → Except Error (Option Ordering)
  | .string s, .string t => .ok (some (Ord.compare s t))
  | .integer m, .integer n => .ok (some (Ord.compare m n))
  | .complex z, v => do
    return if z.same (← v.toComplex) then some .eq else none
  | v, .complex z => do
    return if (← v.toComplex).same z then some .eq else none
  | .integer n, .real y => .ok (compareReals (Real.ofInteger n) y)
  | .real x, .integer n => .ok (compareReals x (Real.ofInteger n))
  | .real x, .real y => .ok (compareReals x y)
  | .string _, _ | _, .string _ => .error Error.compareStringWithNumber
  | v, w => .error (Error.cannotCompare v.kind w.kind)

end Value

end LineBasic
