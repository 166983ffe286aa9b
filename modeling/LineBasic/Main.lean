-- Runs the demonstration on the terminal.
import LineBasic.Demo
import LineBasic.Terminal

namespace LineBasic

/-- Longest nap between two looks at the clock, in milliseconds. -/
def longestNap : Nat := 50

/-- Up to `steps` steps, each at the time at which it is made. -/
def makeSteps : (steps : Nat) → Session → IO (Event × Session)
  | 0, s => return (.running, s)
  | steps + 1, s => do
    match (s.atInstant (← IO.monoNanosNow)).execute 1 with
    | (.running, s) => makeSteps steps s
    | paused => return paused

/-- Takes turns until the program is over. -/
partial def runTurns (s : Session) : IO Unit := do
  let (wait, s) := Terminal.conclude (← makeSteps Terminal.stepsPerTurn s)
  let (text, s) := Terminal.takeOutput s
  let out ← IO.getStdout
  out.putStr text
  out.flush
  match wait with
  | .none => runTurns s
  | .until instant =>
    let left := (instant - (← IO.monoNanosNow)) / 1000000
    IO.sleep (min left longestNap).toUInt32
    runTurns s
  | .over => return ()

end LineBasic

def main : IO Unit := do
  let now ← IO.monoNanosNow
  LineBasic.runTurns (LineBasic.Terminal.start LineBasic.Demo.program now.toUInt64 { instant := now })
