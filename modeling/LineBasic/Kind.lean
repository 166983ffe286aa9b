-- The six types of a value, and the type that a name asks for.
import LineBasic.Name

namespace LineBasic

/-- The type of a value. -/
inductive Kind where
  | integer
  | real
  | string
  | complex
  | array
  | record
deriving DecidableEq, Inhabited

namespace Kind

/-- The word for a type, as messages write it. -/
def word : Kind → String
  | .integer => "INTEGER"
  | .real => "REAL"
  | .string => "STRING"
  | .complex => "COMPLEX"
  | .array => "ARRAY"
  | .record => "STRUCTURE"

def isNumeric : Kind → Bool
  | .integer | .real | .complex => true
  | .string | .array | .record => false

/-- A name without a sigil holds a structure. -/
def ofSigil : Sigil → Kind
  | .integer => .integer
  | .real => .real
  | .string => .string
  | .complex => .complex
  | .none => .record

/-- The type of a scalar of this name, or of the elements of an array of this name. -/
def ofName (n : Name) : Kind := ofSigil n.sigil

end Kind

end LineBasic
