-- The variables of a running program: globals, and one scope for each active
-- call. A parameter passed by reference is an alias of a variable of the
-- caller, so a name leads through aliases to one cell.
import LineBasic.Stack
import LineBasic.Value.Grid

namespace LineBasic

/-- The variables of one call. `aliases` maps a parameter passed by reference
to the caller's name for it. -/
structure Scope where
  locals : Table Name Value := {}
  aliases : Table Name Name := {}
  returnLine : Option Nat := none
deriving Inhabited

/-- Most calls that can be active at once. -/
def maxCalls : Nat := 1000

structure Variables where
  globals : Table Name Value := {}
  scopes : Stack Scope := { note := "TOO MANY NESTED CALLS", limit := maxCalls }
deriving Inhabited

/-- Where a variable is kept. `level` counts scopes from the outermost call. -/
inductive Cell where
  | global (key : Name)
  | local (level : Nat) (key : Name)
deriving DecidableEq, Inhabited

/-- A value as one that a variable of this name can hold. -/
def fitTo (name : Name) (v : Value) : Except Error Value :=
  if name.isArray then
    match v with
    | .array a => do return .array (← a.retype (Kind.ofName name))
    | other => .error (Error.cannotAssignToArray other.kind)
  else v.coerce (Kind.ofName name)

namespace Variables

/-! ## Cells -/

/-- The cell of a key, seen from the innermost of the lowest `depth` scopes.
An alias is followed to the scope below. `here` asks for a cell of the
innermost scope even if none is there yet. -/
def locate (scopes : List Scope) : (depth : Nat) → (key : Name) → (here : Bool) → Cell
  | 0, key, _ => .global key
  | level + 1, key, here =>
    match scopes[level]? with
    | none => .global key
    | some scope =>
      match scope.aliases.get? key with
      | some target => locate scopes level target.key false
      | none => if here || scope.locals.contains key then .local level key else .global key

variable (vars : Variables)

/-- Number of active calls. -/
def depth : Nat := vars.scopes.size

def cell (name : Name) (here : Bool) : Cell :=
  locate vars.scopes.items vars.depth name.key here

def fetch : Cell → Option Value
  | .global key => vars.globals.get? key
  | .local level key => (vars.scopes.get? level).bind fun s => s.locals.get? key

/-- A local cell belongs to a call that is still active. -/
def isLive : Cell → Bool
  | .global _ => true
  | .local level _ => level < vars.depth

def store (v : Value) : Cell → Variables
  | .global key => { vars with globals := vars.globals.insert key v }
  | .local level key =>
    { vars with scopes := vars.scopes.modify level fun s =>
        { s with locals := s.locals.insert key v } }

/-! ## Reading -/

def lookup (name : Name) : Option Value := vars.fetch (vars.cell name false)

/-- A variable that was never stored reads as the default for its name. -/
def peek (name : Name) : Value := (vars.lookup name).getD (Value.defaultFor name)

def has (name : Name) : Bool := (vars.lookup name).isSome

/-- The innermost call has a variable of this name or an alias for it. -/
def hasLocal (name : Name) : Bool :=
  match vars.scopes.top? with
  | some scope => scope.locals.contains name.key || scope.aliases.contains name.key
  | none => false

/-- One item of an array variable. -/
def element (name : Name) (indexes : List Int64) : Except Error Value :=
  match vars.lookup name with
  | some (.array a) => a.get indexes
  | some v => .error (Error.notAnArray v.kind)
  | none => (Grid.dynamic .integer).get indexes

/-! ## Writing -/

/-- Stores a value that fits the name. -/
def put (name : Name) (v : Value) (here : Bool) : Variables := vars.store v (vars.cell name here)

/-- The cell of a name and its value. A cell that holds nothing gets the default. -/
def slot (name : Name) : Cell × Value × Variables :=
  let cell := vars.cell name false
  match vars.fetch cell with
  | some v => (cell, v, vars)
  | none => (cell, Value.defaultFor name, vars.store (Value.defaultFor name) cell)

/-! ## Calls -/

/-- Opens the scope of a call. The aliases are those of a map, whose order is left open. Of
two parameters by reference that are alike up to case the last one counts here, and nothing
may rest on that. -/
def enterCall (returnLine : Option Nat) (aliases : List (Name × Name)) : Except Error Variables := do
  let scope : Scope :=
    { aliases := Table.ofList (aliases.map fun a => (a.1.key, a.2)), returnLine }
  return { vars with scopes := ← vars.scopes.push scope }

/-- Leaves the innermost call and tells the line to go on at. -/
def leaveCall : Option Nat × Variables :=
  (vars.scopes.top?.bind (·.returnLine), { vars with scopes := vars.scopes.pop })

/-- Leaves calls until at most `depth` of them are active. -/
def cutTo (depth : Nat) : Variables := { vars with scopes := vars.scopes.truncate depth }

def returnLine : Option Nat := vars.scopes.top?.bind (·.returnLine)

/-- The line of the call that was made at a depth. -/
def callSite (depth : Nat) : Option Nat :=
  ((vars.scopes.get? depth).bind (·.returnLine)).map (· - 1)

/-- The variables of the innermost call. -/
def locals : Table Name Value :=
  match vars.scopes.top? with
  | some scope => scope.locals
  | none => {}

end Variables

end LineBasic
