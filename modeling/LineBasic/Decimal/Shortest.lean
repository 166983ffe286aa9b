-- The shortest decimal that reads back as a given REAL. Of all decimals with
-- that few digits it is the nearest one, and a tie goes up. All comparisons
-- are between whole numbers, so nothing is rounded on the way.
import LineBasic.Real.Binary

namespace LineBasic.Decimal

/-- The number `digits * 10 ^ exponent`. -/
structure Digits where
  digits : Nat
  exponent : Int
deriving DecidableEq, Inhabited

/-! ## The numbers that round to a REAL -/

/-- The numbers from `low / unit` to `high / unit` round to the number
`value / unit`. The two ends belong to them iff `closed`. -/
structure Span where
  low : Nat
  value : Nat
  high : Nat
  unit : Nat
  closed : Bool

/-- The numbers that round to `mantissa * 2 ^ exponent`. Below a power of two
the next REAL is only half as far away. -/
def spanOf (mantissa : Nat) (exponent : Int) : Span :=
  let below :=
    if mantissa = 1 <<< Real.fractionBits ∧ Real.leastExponent < exponent then 1 else 2
  let scale := 1 <<< (exponent - 2).toNat
  { low := (4 * mantissa - below) * scale
    value := 4 * mantissa * scale
    high := (4 * mantissa + 2) * scale
    unit := 1 <<< (2 - exponent).toNat
    closed := mantissa % 2 = 0 }

/-! ## The decimal grid -/

/-- How often ten goes into `n`, up to `fuel` times. -/
def tens : Nat → Nat → Nat
  | 0, _ => 0
  | fuel + 1, n => if n < 10 then 0 else tens fuel (n / 10) + 1

/-- How often `n` has to be multiplied by ten to reach `d`, up to `fuel` times. -/
def tensToReach : Nat → Nat → Nat → Nat
  | 0, _, _ => 0
  | fuel + 1, n, d => if d ≤ n then 0 else tensToReach fuel (n * 10) d + 1

/-- The exponent of the first decimal digit of a number. -/
def leadingExponent (s : Span) : Int :=
  if s.unit ≤ s.value then tens (s.value.log2 + 1) (s.value / s.unit)
  else -(tensToReach 400 s.value s.unit : Int)

/-- The better of the two neighbours of a number on the grid of the multiples
of `10 ^ exponent`, if one of them reads back. -/
def onGrid? (s : Span) (exponent : Int) : Option Digits :=
  let up := Nat.pow 10 exponent.toNat
  let down := Nat.pow 10 (-exponent).toNat
  let step := up * s.unit
  let value := s.value * down
  let floor := value / step
  let ceiling := floor + 1
  let lowFits :=
    if s.closed then s.low * down ≤ floor * step else s.low * down < floor * step
  let highFits :=
    if s.closed then ceiling * step ≤ s.high * down else ceiling * step < s.high * down
  let nearer :=
    if 2 * (value - floor * step) < step then floor else ceiling
  if lowFits ∧ highFits then some ⟨nearer, exponent⟩
  else if lowFits then some ⟨floor, exponent⟩
  else if highFits then some ⟨ceiling, exponent⟩
  else none

/-- Tries one digit, then two, and so on; seventeen always read back. -/
def search (s : Span) (leading : Int) : Nat → Nat → Digits
  | 0, _ => ⟨s.value / s.unit, 0⟩
  | fuel + 1, count =>
    let exponent := leading + 1 - count
    match onGrid? s exponent with
    | some d => d
    | none => search s leading fuel (count + 1)

/-- Drops up to `fuel` zeros at the end. -/
def trim : Nat → Digits → Digits
  | 0, d => d
  | fuel + 1, d =>
    if d.digits % 10 = 0 ∧ d.digits ≠ 0 then trim fuel ⟨d.digits / 10, d.exponent + 1⟩ else d

/-- The shortest decimal for `mantissa * 2 ^ exponent`, which is not zero. -/
def shortest (mantissa : Nat) (exponent : Int) : Digits :=
  let s := spanOf mantissa exponent
  trim 17 (search s (leadingExponent s) 17 1)

/-! ## Written out -/

/-- Writes a decimal without an exponent, however long it gets. -/
def positional (d : Digits) : String :=
  let text := toString d.digits
  match d.exponent with
  | .ofNat zeros => text ++ String.ofList (List.replicate zeros '0')
  | .negSucc n =>
    let places := n + 1
    let padded := List.replicate (places + 1 - text.length) '0' ++ text.toList
    let whole := padded.length - places
    String.ofList (padded.take whole ++ '.' :: padded.drop whole)

/-- Every REAL in full: the shortest digits that read back and no exponent. -/
def plain (x : Float) : String :=
  match Real.read x with
  | .nan => "NaN"
  | .infinite negative => if negative then "-inf" else "inf"
  | .finite negative mantissa exponent =>
    let size := if mantissa = 0 then "0" else positional (shortest mantissa exponent)
    if negative then "-" ++ size else size

end LineBasic.Decimal
