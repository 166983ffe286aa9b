-- The lines of a program. A line is a statement with an indent, and the
-- layout of a list of statements gives each the indent that its role asks for.
import LineBasic.Statement

namespace LineBasic

structure Line where
  indent : Nat
  statement : Statement
deriving Inhabited

namespace Line

def label? (l : Line) : Option Name := l.statement.label?

def role (l : Line) : Role := l.statement.role

end Line

/-- Lays out statements whose bodies stand at `level`. An opener, its clauses
and its closer share one indent, and what stands between them is one deeper. -/
def layoutFrom (level : Nat) : List Statement → List Line
  | [] => []
  | s :: rest =>
    match s.role with
    | .plain => ⟨level, s⟩ :: layoutFrom level rest
    | .opener => ⟨level, s⟩ :: layoutFrom (level + 1) rest
    | .clause => ⟨level - 1, s⟩ :: layoutFrom level rest
    | .closer => ⟨level - 1, s⟩ :: layoutFrom (level - 1) rest

def layout (statements : List Statement) : List Line := layoutFrom 0 statements

end LineBasic
