-- Where a block begins and ends. An opener, its clauses and its closer share
-- one indent, so a search goes over deeper lines, passes clauses of its own
-- indent, and stops at a shallower line or at any other line of its indent.
import LineBasic.Program.Store

namespace LineBasic.Program

/-- What a search does at a line. -/
inductive Search where
  | found
  | onward
  | stop
deriving DecidableEq

/-- Looks at one line in a search for a statement at an indent. -/
def look (indent : Nat) (wanted : Statement → Bool) (l : Line) : Search :=
  if l.indent < indent then .stop
  else if l.indent = indent then
    if wanted l.statement then .found
    else if l.role = .clause then .onward
    else .stop
  else .onward

/-- Searches lines that start at `place`. -/
def searchDown (indent : Nat) (wanted : Statement → Bool) (place : Nat) : List Line → Option Nat
  | [] => none
  | l :: rest =>
    match look indent wanted l with
    | .found => some place
    | .onward => searchDown indent wanted (place + 1) rest
    | .stop => none

/-- Searches lines from the last to the first. -/
def searchUp (indent : Nat) (wanted : Statement → Bool) : List Line → Option Nat
  | [] => none
  | l :: rest =>
    match look indent wanted l with
    | .found => some rest.length
    | .onward => searchUp indent wanted rest
    | .stop => none

/-- The next line of a block after the one at `start`: a clause or the closer. -/
def closer (p : Program) (start : Nat) (wanted : Statement → Bool) : Option Nat :=
  match p.lines[start]? with
  | none => none
  | some l => searchDown l.indent wanted (start + 1) (p.lines.drop (start + 1))

/-- The line of a block before the one at `place`: the opener or a clause. -/
def opener (p : Program) (place : Nat) (wanted : Statement → Bool) : Option Nat :=
  match p.lines[place]? with
  | none => none
  | some l => searchUp l.indent wanted (p.lines.take place).reverse

end LineBasic.Program
