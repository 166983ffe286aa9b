-- Values as text. A REAL without a fraction prints like an INTEGER up to
-- fifteen digits, and every other REAL prints the shortest digits that read
-- back.
import LineBasic.Value.Basic
import LineBasic.Decimal.Shortest

namespace LineBasic

/-- The REAL from which on a whole number prints as a REAL. -/
def wholeLimit : Float := 1e15

def renderReal (x : Float) : String :=
  if x.isNaN then "NaN"
  else if x.isInf then if x > 0 then "Infinity" else "-Infinity"
  else if Real.isWhole x && x.abs < wholeLimit then toString (Real.toInteger x).toInt
  else Decimal.plain x

/-- The sign between the two parts is that of the imaginary part. -/
def renderComplex (z : Complex) : String :=
  if z.im < 0 || (z.im == 0 && Real.isNegative z.im) then
    renderReal z.re ++ "-" ++ renderReal (-z.im) ++ "i"
  else renderReal z.re ++ "+" ++ renderReal z.im ++ "i"

namespace Value

mutual

def render : Value → String
  | .integer n => toString n.toInt
  | .real x => renderReal x
  | .string s => s
  | .complex z => renderComplex z
  | .array ⟨_, ⟨[]⟩, _⟩ => "[]"
  | .array ⟨_, ⟨v :: vs⟩, _⟩ => renderItems ("[" ++ v.render) vs ++ "]"
  | .record ⟨[]⟩ => "\x7b\x7d"
  | .record ⟨m :: ms⟩ => "\x7b" ++ ",".intercalate (renderMembers (m :: ms)) ++ " \x7d"

/-- More items after the text so far. -/
def renderItems (before : String) : List Value → String
  | [] => before
  | v :: vs => renderItems (before ++ ", " ++ v.render) vs

def renderMembers : List (Name × Value) → List String
  | [] => []
  | (k, v) :: rest => (" " ++ k.text ++ ": " ++ v.render) :: renderMembers rest

end

end Value

end LineBasic
