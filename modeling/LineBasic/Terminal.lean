-- A program on a terminal. It runs in turns; what it prints is text with
-- escape codes, and an error that ends it is shown in bold.
import LineBasic.Session.Basic

namespace LineBasic.Terminal

/-- Steps in one turn. -/
def stepsPerTurn : Nat := 5000

/-- What has to be done before the next turn. -/
inductive Wait where
  | none
  | until (instant : Nat)
  | over
deriving DecidableEq, Inhabited

/-- A program that prints to a terminal and whose views nobody watches. -/
def start (program : Program) (seed : UInt64) (clock : Clock) : Session :=
  Session.start program seed { screen := Screen.onTerminal, clock }

/-- The line that reports an error. -/
def report (e : Error) : String := "\n" ++ Style.paint { bold := true } e.render ++ "\n"

def write (s : Session) (text : String) : Session :=
  { s with host := { s.host with screen := { s.host.screen with text := s.host.screen.text ++ text } } }

/-- What a run leaves to be done. -/
def conclude : Event × Session → Wait × Session
  | (.running, s) => (.none, s)
  | (.sleeping instant, s) => (.until instant, s)
  | (.stopped, s) => (.over, s)
  | (.failed e, s) => (.over, write s (report e))

/-- Runs a program for one turn. -/
def turn (s : Session) : Wait × Session := conclude (s.execute stepsPerTurn)

/-- Takes what was written since the last time. -/
def takeOutput (s : Session) : String × Session :=
  let (text, screen) := s.host.screen.takeText
  (text, { s with host := { s.host with screen } })

end LineBasic.Terminal
