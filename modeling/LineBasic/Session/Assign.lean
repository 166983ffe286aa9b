-- Statements that store values: LET, LOCAL, DIM, SWAP, and the four that work
-- on the ends of a list.
import LineBasic.Session.Machine

namespace LineBasic

/-- A structure with a value at the end of a path. Missing structures on the
way are made. -/
def Value.withMember (new : Value) : List Name → Value → Except Error Value
  | [], _ => .error (Error.internal "EMPTY MEMBER PATH")
  | [field], .record members => .ok (.record (members.insert field.key new))
  | field :: next :: rest, .record members => do
    let inner := (members.get? field.key).getD (.record {})
    return .record (members.insert field.key (← Value.withMember new (next :: rest) inner))
  | _, v => .error (Error.hasNoMembers v.kind)

namespace Run

variable {α : Type}

/-- Changes a variable in its cell. A variable that was never stored starts
from its default, which stays even if the change fails. -/
def update (name : Name) (change : Value → Except Error (α × Value)) : Run α := do
  let (cell, v, m) := (← memory).slot name
  setMemory m
  if m.variables.isLive cell then
    let (a, w) ← ofExcept (change v)
    setMemory (m.store cell w)
    return a
  else throw (Error.internal "SCOPE VANISHED")

/-- Changes an array variable. -/
def updateArray (name : Name) (change : Grid Value → Except Error (α × Grid Value)) : Run α :=
  update (name.ofArray 1) fun v =>
    match v with
    | .array a => do
      let (x, b) ← change a
      return (x, .array b)
    | v => .error (Error.notAnArray v.kind)

/-- Stores a value in a location. -/
def assign (target : Location) (v : Value) : Run Unit :=
  match target with
  | .variable name => store name v
  | .element name indexes => do
    let is ← observe (evaluateIndexes indexes)
    updateArray (name.ofArray is.length) fun a => do return ((), ← a.set is v)
  | .member name path =>
    update name fun r => do return ((), ← Value.withMember v path r)

/-! ## Statements -/

def letStatement (target : Location) (e : Expression) : Run Flow := do
  assign target (← value e)
  return .next

def localStatement (name : Name) (initial : Option Expression) : Run Flow := do
  let v ← match initial with
    | some e => value e
    | none => pure (Value.defaultFor name)
  storeLocal name v
  return .next

/-- Lowest index and number of items of one axis. -/
def axisBounds (a : AxisRange) : Run (Int64 × Nat) := do
  let upper ← integer a.upper
  let (lower, length) ← match a.lower with
    | some e => do
      let lower ← integer e
      let distance := upper.toInt - lower.toInt
      if Real.fits distance && Real.fits (distance + 1) then pure (lower, distance + 1)
      else throw Error.arrayTooLarge
    | none => pure (0, upper.toInt)
  if length < 0 then throw Error.negativeArraySize
  else return (lower, length.toNat)

def dimStatement (name : Name) (axes : List AxisRange) : Run Flow := do
  let bounds ← axes.mapM axisBounds
  let name := name.ofArray axes.length
  let a ← ofExcept (Grid.dimensioned (Kind.ofName name) bounds)
  store name (.array a)
  return .next

def swapStatement (a b : Location) : Run Flow := do
  let v ← observe a.read
  let w ← observe b.read
  if v.kind ≠ w.kind then throw Error.swapKinds
  else
    assign a w
    assign b v
    return .next

def pushStatement (name : Name) (e : Expression) : Run Flow := do
  let v ← value e
  updateArray name fun a => do return ((), ← a.push v)
  return .next

def unshiftStatement (name : Name) (e : Expression) : Run Flow := do
  let v ← value e
  updateArray name fun a => do return ((), ← a.unshift v)
  return .next

def popStatement (name : Name) (target : Location) : Run Flow := do
  assign target (← updateArray name Grid.pop)
  return .next

def shiftStatement (name : Name) (target : Location) : Run Flow := do
  assign target (← updateArray name Grid.shift)
  return .next

end Run

end LineBasic
