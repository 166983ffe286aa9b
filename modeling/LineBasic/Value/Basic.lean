-- The values of the language. A value has one of six types; an array holds
-- items of one type in row-major order, and a structure holds members by name.
import LineBasic.Table
import LineBasic.Kind
import LineBasic.Real.Complex
import LineBasic.Value.Number

namespace LineBasic

/-- One axis of an array: its lowest index, its number of indexes, and how far
apart two neighbours on it are stored. -/
structure Axis where
  lower : Int64
  length : Nat
  stride : Nat
deriving DecidableEq, Inhabited

/-- Items in row-major order. Without axes it is a list that starts at index
zero and can grow and shrink at both ends. -/
structure Grid (α : Type) where
  element : Kind
  items : Array α := #[]
  axes : List Axis := []
deriving Inhabited

inductive Value where
  | integer (n : Int64)
  | real (x : Float)
  | string (s : String)
  | complex (z : Complex)
  | array (a : Grid Value)
  | record (members : Table Name Value)
deriving Inhabited

namespace Value

def kind : Value → Kind
  | .integer _ => .integer
  | .real _ => .real
  | .string _ => .string
  | .complex _ => .complex
  | .array _ => .array
  | .record _ => .record

/-- The value that a variable of a type has before anything is stored in it. -/
def zero : Kind → Value
  | .integer => .integer 0
  | .real => .real 0
  | .string => .string ""
  | .complex => .complex ⟨0, 0⟩
  | .array => .array { element := .integer }
  | .record => .record {}

/-- The value of a variable that was never stored. -/
def defaultFor (n : Name) : Value :=
  if n.isArray then .array { element := Kind.ofName n } else zero (Kind.ofName n)

def ofBool (b : Bool) : Value := .integer (Integer.ofBool b)

def ofNumber : Number → Value
  | .integer n => .integer n
  | .real x => .real x

def number? : Value → Option Number
  | .integer n => some (.integer n)
  | .real x => some (.real x)
  | _ => none

/-- Zero, or nothing inside. -/
def isZero : Value → Bool
  | .integer n => n = 0
  | .real x => x == 0
  | .complex z => z.isZero
  | .string s => s.isEmpty
  | .array a => a.items.isEmpty
  | .record members => members.isEmpty

/-! ## Equality -/

mutual

/-- The same type and equal contents. REALs are compared as numbers, so a
missing number equals nothing and the two zeros are equal. -/
def same : Value → Value → Bool
  | .integer m, .integer n => m = n
  | .real x, .real y => x == y
  | .string s, .string t => s = t
  | .complex z, .complex w => z.same w
  | .array ⟨k, ⟨xs⟩, axes⟩, .array b => k = b.element && axes = b.axes && sameItems xs b.items.toList
  | .record ⟨xs⟩, .record b => sameMembers xs b.entries
  | _, _ => false

def sameItems : List Value → List Value → Bool
  | [], [] => true
  | v :: vs, w :: ws => v.same w && sameItems vs ws
  | _, _ => false

def sameMembers : List (Name × Value) → List (Name × Value) → Bool
  | [], [] => true
  | (k, v) :: vs, (l, w) :: ws => k = l && v.same w && sameMembers vs ws
  | _, _ => false

end

end Value

end LineBasic
