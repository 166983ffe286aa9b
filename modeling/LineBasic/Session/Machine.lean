-- The state of a running program, and what the execution of one statement may
-- do with it. A statement that fails keeps what it has done up to then.
import LineBasic.Evaluation
import LineBasic.Host
import LineBasic.Program.Block
import LineBasic.Session.Frame

namespace LineBasic

structure State where
  memory : Memory
  frames : Frames := Frames.empty
  host : Host := {}
deriving Inhabited

/-- How a program goes on after a statement. -/
inductive Flow where
  | next
  | jump (line : Nat)
  | return
  | stop
  /-- On to the next line, but not for so many nanoseconds. -/
  | rest (delay : Nat)
deriving DecidableEq, Inhabited

/-- The execution of a statement of a program. -/
abbrev Run := ReaderT Program (EStateM Error State)

namespace State

/-- What an expression can see. -/
def view (s : State) : View :=
  { «variables» := s.memory.variables
    keyboard := s.memory.keyboard
    files := s.host.files
    clock := s.host.clock }

def withTrail (s : State) (t : Trail) : State := { s with memory := { s.memory with trail := t } }

/-- Runs an evaluation in a state. -/
def observe {α : Type} (x : Eval α) (s : State) : EStateM.Result Error State α :=
  match x s.view s.memory.trail with
  | .ok a t => .ok a (s.withTrail t)
  | .error e t => .error e (s.withTrail t)

end State

namespace Run

variable {α : Type}

def ofExcept : Except Error α → Run α
  | .ok a => pure a
  | .error e => throw e

/-- Goes on with a value that has to be there. -/
def require (a : Option α) (e : Error) : Run α :=
  match a with
  | some a => pure a
  | none => throw e

/-! ## Expressions -/

def observe (x : Eval α) : Run α := fun _ s => s.observe x

def value (e : Expression) : Run Value := observe (evaluate e)

def integer (e : Expression) : Run Int64 := do ofExcept (← value e).toInteger

def real (e : Expression) : Run Float := do ofExcept (← value e).toReal

def count (e : Expression) : Run Nat := do ofExcept (← value e).toCount

def text (e : Expression) : Run String := do ofExcept (← value e).toText

/-- A condition is an INTEGER; all but zero are true. -/
def condition (e : Expression) : Run Bool := do
  match ← value e with
  | .integer n => return n ≠ 0
  | v => throw (Error.conditionKind v.kind)

/-! ## Memory -/

def memory : Run Memory := do return (← get).memory

def setMemory (m : Memory) : Run Unit := modify fun s => { s with memory := m }

/-- The line of the statement. -/
def line : Run Nat := do return (← memory).line

/-- The number of active calls. -/
def depth : Run Nat := do return (← memory).variables.depth

/-- Stores a value under a name. A local variable or an alias of the innermost
call wins over a global one. -/
def store (name : Name) (v : Value) : Run Unit := do
  let m ← memory
  setMemory (← ofExcept (m.set name v (m.variables.hasLocal name)))

/-- Stores a value as a local variable. -/
def storeLocal (name : Name) (v : Value) : Run Unit := do
  setMemory (← ofExcept ((← memory).set name v true))

/-! ## The program -/

def statement (line : Nat) : Run Statement := do
  require ((← read).statement? line) (Error.internal "LINE OUT OF RANGE")

def closer (start : Nat) (wanted : Statement → Bool) : Run (Option Nat) := do
  return (← read).closer start wanted

def opener (place : Nat) (wanted : Statement → Bool) : Run (Option Nat) := do
  return (← read).opener place wanted

/-! ## Blocks -/

def frames : Run Frames := do return (← get).frames

def setFrames (fs : Frames) : Run Unit := modify fun s => { s with frames := fs }

def enter (first last : Nat) (state : FrameState) : Run Unit := do
  let fs ← ofExcept ((← frames).enter { first, last, depth := ← depth, state })
  setFrames fs

/-- Place of the frame of the block that starts at a line. -/
def framePlace? (first : Nat) : Run (Option Nat) := do
  return (← frames).place? first (← depth)

def leave (first : Nat) : Run Unit := do
  setFrames ((← frames).leave first (← depth))

def truncate (size : Nat) : Run Unit := do setFrames ((← frames).truncate size)

def setFrameState (place : Nat) (state : FrameState) : Run Unit := do
  setFrames ((← frames).modify place fun f => { f with state })

/-! ## The host -/

def host : Run Host := do return (← get).host

def onHost (f : Host → Host) : Run Unit := modify fun s => { s with host := f s.host }

def onScreen (f : Screen → Screen) : Run Unit := onHost fun h => { h with screen := f h.screen }

def setFiles (files : Files) : Run Unit := onHost fun h => { h with files }

/-- Works on the files in place: what a request does before it fails stays. -/
def onFiles (act : Action Files α) : Run α := do
  let r := act.result (← host).files
  setFiles r.2
  ofExcept r.1

end Run

end LineBasic
