-- A session runs a program a few steps at a time. Between two runs it can be
-- interrupted, woken from a sleep, or started over. Time passes while a program
-- runs, so a run is told what time it is at each of its steps.
import LineBasic.Session.Step

namespace LineBasic

/-- Why a run came to a halt. -/
inductive Event where
  /-- The steps are used up; there is more to do. -/
  | running
  | sleeping (wakeAt : Nat)
  | stopped
  | failed (e : Error)
deriving DecidableEq, Inhabited

namespace Session

/-! ## From outside -/

/-- Starts over at the first line with empty memory. -/
def reset (s : Session) : Session :=
  { s with
    memory := s.memory.cleared
    frames := s.frames.clear
    wakeAt := none
    stopped := false
    interrupted := false }

/-- Asks the program to stop at its next run. -/
def interrupt (s : Session) : Session := { s with interrupted := true }

/-- Ends a sleep. -/
def wake (s : Session) : Session := { s with wakeAt := none }

/-- A session at another time. -/
def atTime (s : Session) (clock : Clock) : Session := { s with host := { s.host with clock } }

/-- Lets time pass. -/
def atInstant (s : Session) (instant : Nat) : Session :=
  s.atTime { s.host.clock with instant }

/-! ## Runs -/

/-- Up to `steps` steps, and none after the program ends, fails or falls asleep.
Step `i` is made at time `times i`. -/
def cycle (times : Nat → Clock) : Nat → Session → Event × Session
  | 0, s => (.running, s)
  | steps + 1, s =>
    match (s.atTime (times 0)).step with
    | (.onward, s) =>
      match s.wakeAt with
      | some instant => (.sleeping instant, s)
      | none => cycle (Clock.later times 1) steps s
    | (.ended, s) => (.stopped, s)
    | (.failed e, s) => (.failed e, s)

/-- A run of a program that is awake. -/
def executeAwake (times : Nat → Clock) (steps : Nat) (s : Session) : Event × Session :=
  if s.interrupted then
    let calm := { s with interrupted := false }
    if s.stopped then (.stopped, calm)
    else (.failed (Error.interrupted s.line), calm.halt)
  else if s.stopped then (.stopped, s)
  else cycle times steps s

/-- Runs up to `steps` steps, step `i` at time `times i`. A program that sleeps
does nothing before its time, unless it is interrupted. The run begins at the
time that the session is at. -/
def executeAt (times : Nat → Clock) (steps : Nat) (s : Session) : Event × Session :=
  match s.wakeAt with
  | some instant =>
    if s.host.clock.instant < instant && !s.interrupted then (.sleeping instant, s)
    else executeAwake times steps s.wake
  | none => executeAwake times steps s

/-- A run that takes no time. -/
def execute (steps : Nat) (s : Session) : Event × Session :=
  s.executeAt (fun _ => s.host.clock) steps

end Session

end LineBasic
