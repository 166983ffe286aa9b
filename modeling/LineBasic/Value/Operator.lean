-- The operators of the language. Numbers are lifted to the higher of the
-- types INTEGER, REAL and COMPLEX of the two operands; comparisons and logic
-- yield -1 for true and 0 for false.
import LineBasic.Value.Convert
import LineBasic.Value.Render
import LineBasic.Real.Remainder

namespace LineBasic

/-- Two operands of one type. -/
inductive Pair where
  | integers (l r : Int64)
  | reals (l r : Float)
  | complexes (l r : Complex)

namespace Value

/-- Lifts two operands to one type. -/
def promote : Value → Value → Except Error Pair
  | .integer l, .integer r => .ok (.integers l r)
  | .complex l, r => do return .complexes l (← r.toComplex)
  | l, .complex r => do return .complexes (← l.toComplex) r
  | l, r => do return .reals (← l.toReal) (← r.toReal)

/-! ## Arithmetic -/

def negate : Value → Except Error Value
  | .integer n => .ok (.integer (Integer.neg n))
  | .real x => .ok (.real (-x))
  | .complex z => .ok (.complex z.neg)
  | v => .error (Error.notNumeric v.kind)

/-- Text on either side makes the sum a text. -/
def sum : Value → Value → Except Error Value
  | .string s, v => .ok (.string (s ++ v.render))
  | v, .string s => .ok (.string (v.render ++ s))
  | v, w => do
    match ← promote v w with
    | .integers l r => return .integer (Integer.add l r)
    | .reals l r => return .real (l + r)
    | .complexes l r => return .complex (l.add r)

def subtract (v w : Value) : Except Error Value := do
  match ← promote v w with
  | .integers l r => return .integer (Integer.sub l r)
  | .reals l r => return .real (l - r)
  | .complexes l r => return .complex (l.sub r)

def multiply (v w : Value) : Except Error Value := do
  match ← promote v w with
  | .integers l r => return .integer (Integer.mul l r)
  | .reals l r => return .real (l * r)
  | .complexes l r => return .complex (l.mul r)

def integerQuotient (l r : Int64) : Except Error Value :=
  if r = 0 then .error Error.divisionByZero else .ok (.integer (Integer.quotient l r))

/-- Two INTEGERs have an INTEGER quotient. A REAL can be divided by zero. -/
def divide (v w : Value) : Except Error Value := do
  match ← promote v w with
  | .integers l r => integerQuotient l r
  | .reals l r => return .real (l / r)
  | .complexes l r => if r.isZero then .error Error.divisionByZero else return .complex (l.div r)

/-- A quotient that is always an INTEGER. -/
def divideInt (v w : Value) : Except Error Value := do
  match ← promote v w with
  | .integers l r => integerQuotient l r
  | .reals l r =>
    if r == 0 then .error Error.divisionByZero
    else if (l / r).isFinite then return .integer (Real.toInteger (l / r))
    else .error Error.overflow
  | .complexes _ _ => .error Error.complexQuotient

def modulo (v w : Value) : Except Error Value := do
  match ← promote v w with
  | .integers l r =>
    if r = 0 then .error Error.divisionByZero else return .integer (Integer.remainder l r)
  | .reals l r => return .real (Real.remainder l r)
  | .complexes _ _ => .error Error.complexRemainder

/-- A power of INTEGERs stays INTEGER unless the exponent is negative. -/
def power (v w : Value) : Except Error Value := do
  match ← promote v w with
  | .integers l r =>
    if r < 0 then return .real ((Real.ofInteger l).pow (Real.ofInteger r))
    else return .integer (Integer.power l r)
  | .reals l r => return .real (l.pow r)
  | .complexes l r => return .complex (l.pow r)

/-! ## Comparison -/

def equal (v w : Value) : Except Error Value := do
  return ofBool ((← v.compare w) = some .eq)

def notEqual (v w : Value) : Except Error Value := do
  return ofBool ((← v.compare w) ≠ some .eq)

/-- The order of two values that are not COMPLEX. -/
def ordered : Value → Value → Except Error (Option Ordering)
  | .complex _, _ | _, .complex _ => .error Error.complexUnordered
  | v, w => v.compare w

def less (v w : Value) : Except Error Value := do
  return ofBool ((← ordered v w) = some .lt)

def lessEqual (v w : Value) : Except Error Value := do
  let o ← ordered v w
  return ofBool (o = some .lt || o = some .eq)

def greater (v w : Value) : Except Error Value := do
  return ofBool ((← ordered v w) = some .gt)

def greaterEqual (v w : Value) : Except Error Value := do
  let o ← ordered v w
  return ofBool (o = some .gt || o = some .eq)

/-! ## Logic, bit by bit -/

def not : Value → Except Error Value
  | .integer n => .ok (.integer (~~~n))
  | v => .error (Error.notNeedsInteger v.kind)

def logical (word : String) (f : Int64 → Int64 → Int64) : Value → Value → Except Error Value
  | .integer l, .integer r => .ok (.integer (f l r))
  | v, w => .error (Error.needsIntegers word v.kind w.kind)

def and : Value → Value → Except Error Value := logical "AND" (· &&& ·)

def or : Value → Value → Except Error Value := logical "OR" (· ||| ·)

def xor : Value → Value → Except Error Value := logical "XOR" (· ^^^ ·)

end Value

end LineBasic
