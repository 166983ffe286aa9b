-- A program: its lines and an index of its labels. Every edit keeps the index
-- in step with the lines, so that a label always leads to the first line that
-- carries it.
import LineBasic.Table
import LineBasic.Program.Line

namespace LineBasic

structure Program where
  lines : List Line := []
  labels : Table Name Nat := {}
deriving Inhabited

namespace Program

/-! ## The index of labels -/

/-- Adds the labels of lines that start at `place`; a label that is known stays. -/
def indexFrom (labels : Table Name Nat) (place : Nat) : List Line → Table Name Nat
  | [] => labels
  | l :: rest =>
    match l.label? with
    | some name => indexFrom (labels.insertNew name.key place) (place + 1) rest
    | none => indexFrom labels (place + 1) rest

/-- Makes the index anew from the lines. -/
def reindexed (p : Program) : Program := { p with labels := indexFrom {} 0 p.lines }

def ofLines (lines : List Line) : Program := reindexed { lines }

def ofStatements (statements : List Statement) : Program := ofLines (layout statements)

/-! ## Queries -/

variable (p : Program)

def size : Nat := p.lines.length

def isEmpty : Bool := p.lines.isEmpty

def line? (place : Nat) : Option Line := p.lines[place]?

def statement? (place : Nat) : Option Statement := (p.line? place).map (·.statement)

def labelPlace? (name : Name) : Option Nat := p.labels.get? name.key

def hasLabel (name : Name) : Bool := p.labels.contains name.key

/-- The first SUB line of a name. -/
def subPlace? (name : Name) : Option Nat :=
  p.lines.findIdx? fun l =>
    match l.statement with
    | .sub other _ => other.alike name
    | _ => false

/-! ## Edits -/

/-- Puts a line before the one at `place`; a place past the end appends. -/
def insert (place : Nat) (line : Line) : Program :=
  let place := min place p.size
  let shifted := p.labels.mapValues fun a => if place ≤ a then a + 1 else a
  let labels :=
    match line.label? with
    | none => shifted
    | some name =>
      match shifted.get? name.key with
      | some first => if first < place then shifted else shifted.insert name.key place
      | none => shifted.insert name.key place
  { lines := p.lines.take place ++ line :: p.lines.drop place, labels }

def append (line : Line) : Program := p.insert p.size line

/-- Removes a line and hands it back. A place past the end changes nothing. -/
def delete (place : Nat) : Option Line × Program :=
  match p.lines[place]? with
  | none => (none, p)
  | some line =>
    let rest := { p with lines := p.lines.eraseIdx place }
    match line.label? with
    | some _ => (some line, rest.reindexed)
    | none =>
      (some line, { rest with labels := p.labels.mapValues fun a => if place < a then a - 1 else a })

/-- Puts a line in the place of another and hands back the old one. -/
def replace (place : Nat) (line : Line) : Option Line × Program :=
  match p.lines[place]? with
  | none => (none, p)
  | some old =>
    let next := { p with lines := p.lines.set place line }
    if old.label?.isSome || line.label?.isSome then (some old, next.reindexed)
    else (some old, next)

end Program

end LineBasic
