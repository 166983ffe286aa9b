-- One step of a program: execute the statement at the current line and go on
-- where it says. An error goes to the innermost TRY block that can take it,
-- and ends the program if there is none.
import LineBasic.Session.Execute

namespace LineBasic

/-- A program, the state of its run, and what holds it up. `wakeAt` is the
instant up to which it sleeps. -/
structure Session extends State where
  program : Program
  wakeAt : Option Nat := none
  stopped : Bool := false
  interrupted : Bool := false
deriving Inhabited

/-- What became of a step. -/
inductive Outcome where
  | onward
  | ended
  | failed (e : Error)
deriving DecidableEq, Inhabited

namespace Session

/-- A program before its first step. -/
def start (program : Program) (seed : UInt64) (host : Host) : Session :=
  { program, memory := Memory.ofSeed seed, host }

def line (s : Session) : Nat := s.memory.line

def depth (s : Session) : Nat := s.memory.variables.depth

def goTo (s : Session) (line : Nat) : Session := { s with memory := { s.memory with line } }

def halt (s : Session) : Session := { s with stopped := true }

/-! ## Return from a call -/

/-- Goes back to the line after the call, out of all blocks that the call was
in. Without a call the program ends. -/
def returnFromCall (s : Session) : Outcome × Session :=
  if s.depth = 0 then (.ended, s.halt)
  else
    let (target, vars) := s.memory.variables.leaveCall
    let s := { s with
      memory := { s.memory with «variables» := vars }
      frames := s.frames.unwind vars.depth }
    match target with
    | some line => (.onward, s.goTo line)
    | none => (.ended, s.halt)

/-! ## Recovery from errors -/

/-- The lines between which an error belongs to a TRY block. -/
def tryRegion (f : Frame) (t : TryBlock) : Option (Nat × Nat) :=
  match t.phase, t.catchLine with
  | .body, _ => some (f.first, (t.catchLine <|> t.finallyLine).getD f.last)
  | .catch, some catchLine => some (catchLine, t.finallyLine.getD f.last)
  | _, _ => none

/-- The current line as it is seen from a depth: from an outer call, the line
of the call that led here. -/
def lineSeenFrom (s : Session) (depth : Nat) : Option Nat :=
  if depth = s.depth then some s.line
  else if depth < s.depth then s.memory.variables.callSite depth
  else none

/-- The error arose strictly between two lines, seen from a depth. -/
def failedWithin (s : Session) (depth low high : Nat) : Bool :=
  match s.lineSeenFrom depth with
  | some line => low < line && line < high
  | none => false

/-- Where a TRY block goes on after an error, and in which phase. An error
that enters FINALLY waits for the end of the block. -/
def handler? (t : TryBlock) (e : Error) : Option (Nat × TryBlock) :=
  match t.phase, t.catchLine, t.finallyLine with
  | .body, some catchLine, _ => some (catchLine, { t with phase := .catch, pending := none })
  | .body, none, some finallyLine | .catch, _, some finallyLine =>
    some (finallyLine, { t with phase := .finally, pending := some e })
  | _, _, _ => none

/-- Gives the text of an error to the variable of a CATCH line. -/
def bindError (s : Session) (line : Nat) (e : Error) : Except Error Session :=
  match s.program.statement? line with
  | some (.catch (some name)) => do
    let here := s.memory.variables.hasLocal name
    return { s with memory := ← s.memory.set name (.string e.description) here }
  | _ => .ok s

/-- Hands an error to the TRY block of the frame at `place`: calls made since
are left, and blocks entered since are dropped. -/
def resume (s : Session) (place : Nat) (f : Frame) (line : Nat) (t : TryBlock) (e : Error) :
    Outcome × Session :=
  let s := { s with
    memory := { s.memory with «variables» := s.memory.variables.cutTo f.depth }
    frames := (s.frames.truncate (place + 1)).modify place fun f => { f with state := .try t } }
  match if t.phase = .catch then s.bindError line e else .ok s with
  | .ok s => (.onward, s.goTo (line + 1))
  | .error e => (.failed e, s.halt)

/-- Looks for a TRY block that takes an error, from the top of the lowest
`place` frames down. A TRY block that was left by a jump is dropped on the way. -/
def recoverFrom (s : Session) (e : Error) : Nat → Outcome × Session
  | 0 => (.failed e, s.halt)
  | place + 1 =>
    match s.frames.get? place with
    | some f =>
      match f.state with
      | .try t =>
        match tryRegion f t with
        | none => s.recoverFrom e place
        | some (low, high) =>
          if s.failedWithin f.depth low high then
            match handler? t e with
            | some (line, t) => s.resume place f line t e
            | none => s.recoverFrom e place
          else recoverFrom { s with frames := s.frames.erase place } e place
      | _ => s.recoverFrom e place
    | none => s.recoverFrom e place

/-- A structural error ends the program whatever TRY blocks there are. -/
def recover (s : Session) (e : Error) : Outcome × Session :=
  if e.isStructural then (.failed e, s.halt) else s.recoverFrom e s.frames.size

/-! ## One step -/

def withState (s : Session) (state : State) : Session := { s with toState := state }

/-- Goes on as a statement says. -/
def follow (s : Session) : Flow → Outcome × Session
  | .next => (.onward, s.goTo (s.line + 1))
  | .jump line => (.onward, s.goTo line)
  | .return => s.returnFromCall
  | .stop => (.ended, s.halt)
  | .rest delay =>
    (.onward, { s.goTo (s.line + 1) with wakeAt := some (s.host.clock.instant + delay) })

/-- Executes exactly one statement. A program past its last line has ended. -/
def step (s : Session) : Outcome × Session :=
  if s.stopped then (.ended, s)
  else
    match s.program.statement? s.line with
    | none => (.ended, s.halt)
    | some statement =>
      match Run.execute statement s.program s.toState with
      | .ok flow state => (s.withState state).follow flow
      | .error e state => (s.withState state).recover (e.inLine s.line)

end Session

end LineBasic
