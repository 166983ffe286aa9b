-- The memory of a running program: its variables, the line it is at, the
-- keyboard, and two records that reading an expression may change: how names
-- were last spelled, and the random numbers.
import LineBasic.Memory.Keyboard
import LineBasic.Memory.Variables
import LineBasic.Random

namespace LineBasic

/-- What the evaluation of an expression leaves behind. -/
structure Trail where
  spellings : Table Name Name := {}
  random : Generator
deriving DecidableEq, Inhabited

namespace Trail

/-- Notes how a name was spelled. -/
def remember (t : Trail) (name : Name) : Trail :=
  { t with spellings := t.spellings.insert name.key name }

/-- The spelling that was used last. -/
def spelling (t : Trail) (name : Name) : Name := (t.spellings.get? name.key).getD name

end Trail

structure Memory where
  «variables» : Variables := {}
  trail : Trail
  line : Nat := 0
  keyboard : Keyboard := {}
deriving Inhabited

namespace Memory

def ofSeed (seed : UInt64) : Memory := { trail := { random := Generator.ofSeed seed } }

/-- Forgets all variables and calls. The keyboard and the random numbers stay. -/
def cleared (m : Memory) : Memory :=
  { m with «variables» := {}, trail := { m.trail with spellings := {} }, line := 0 }

def remember (m : Memory) (name : Name) : Memory := { m with trail := m.trail.remember name }

def get (m : Memory) (name : Name) : Value × Memory := (m.variables.peek name, m.remember name)

def element (m : Memory) (name : Name) (indexes : List Int64) : Except Error Value × Memory :=
  (m.variables.element name indexes, m.remember name)

/-- Stores a value as the name asks for it. -/
def set (m : Memory) (name : Name) (v : Value) (here : Bool) : Except Error Memory := do
  let v ← fitTo name v
  return { m.remember name with «variables» := m.variables.put name v here }

/-- The cell of a name and its value; see `Variables.slot`. -/
def slot (m : Memory) (name : Name) : Cell × Value × Memory :=
  let (cell, v, vars) := m.variables.slot name
  (cell, v, { m.remember name with «variables» := vars })

def store (m : Memory) (cell : Cell) (v : Value) : Memory :=
  { m with «variables» := m.variables.store v cell }

def randomize (m : Memory) (seed : UInt64) : Memory :=
  { m with trail := { m.trail with random := Generator.ofSeed seed } }

def random (m : Memory) : Float × Memory :=
  let (x, g) := m.trail.random.draw
  (x, { m with trail := { m.trail with random := g } })

/-! ## Listings -/

/-- Variables by the spelling used last, in the order of these spellings. -/
def listing (m : Memory) (t : Table Name Value) : List (Name × Value) :=
  (t.entries.map fun e => (m.trail.spelling e.1, e.2)).mergeSort fun a b => !(b.1 < a.1)

def globals (m : Memory) : List (Name × Value) := m.listing m.variables.globals

def locals (m : Memory) : List (Name × Value) := m.listing m.variables.locals

end Memory

end LineBasic
