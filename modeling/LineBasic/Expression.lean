-- The expressions of a program, as a tree.
import LineBasic.Name

namespace LineBasic

inductive BinaryOperator where
  | power
  | multiply
  | divide
  | divideInt
  | modulo
  | add
  | subtract
  | equal
  | notEqual
  | less
  | lessEqual
  | greater
  | greaterEqual
  | and
  | or
  | xor
deriving DecidableEq, Inhabited

inductive Expression where
  | integer (n : Int64)
  | real (x : Float)
  | string (s : String)
  | imaginary (x : Float)
  | variable (name : Name)
  | element (array : Name) (indexes : List Expression)
  | member (record : Expression) (field : Name)
  | array (items : List Expression)
  | record (members : List (Name × Expression))
  | call (function : Name) (arguments : List Expression)
  | negate (e : Expression)
  | not (e : Expression)
  | binary (operator : BinaryOperator) (left right : Expression)
deriving Inhabited

/-- A place that a value can be stored in. -/
inductive Location where
  | variable (name : Name)
  | element (array : Name) (indexes : List Expression)
  | member (record : Name) (path : List Name)
deriving Inhabited

namespace Location

/-- The name that the place belongs to. -/
def name : Location → Name
  | .variable n => n
  | .element n _ => n
  | .member n _ => n

end Location

end LineBasic
