-- The blocks that a program is in. Every active block has a frame: its first
-- and last line, the number of calls that were active when it was entered, and
-- what the block has to remember. Frames are stacked as blocks are entered.
import LineBasic.Stack
import LineBasic.Statement
import LineBasic.Value.Basic

namespace LineBasic

/-- `counter` is the running value before it is stored; `assigned` is what the
variable held right after that, so a body that stores into the variable is
noticed and moves the counter. -/
structure ForLoop where
  name : Name
  start : Number
  limit : Number
  step : Number
  counter : Number
  assigned : Value
deriving Inhabited

/-- The part of a TRY block that is running. -/
inductive TryPhase where
  | body
  | catch
  | finally
deriving DecidableEq, Inhabited

/-- `catchLine` and `finallyLine` are the lines of the two clauses; `pending`
is an error that waits for the end of the block. -/
structure TryBlock where
  phase : TryPhase
  catchLine : Option Nat
  finallyLine : Option Nat
  pending : Option Error
deriving DecidableEq, Inhabited

inductive FrameState where
  | if (taken : Bool)
  | while (negated : Bool)
  | do
  | for (loop : ForLoop)
  | select (selector : Value) (matched : Bool)
  | sub
  | try (block : TryBlock)
deriving Inhabited

namespace FrameState

def kind : FrameState → BlockKind
  | .if _ => .if
  | .while _ => .while
  | .do => .do
  | .for _ => .for
  | .select .. => .select
  | .sub => .sub
  | .try _ => .try

end FrameState

structure Frame where
  first : Nat
  last : Nat
  depth : Nat
  state : FrameState
deriving Inhabited

namespace Frame

def kind (f : Frame) : BlockKind := f.state.kind

/-- The block was entered at a line by a call at a depth. -/
def isAt (line depth : Nat) (f : Frame) : Bool := f.first = line && f.depth = depth

end Frame

/-- Most blocks that can be active at once. -/
def maxBlocks : Nat := 4000

abbrev Frames := Stack Frame

namespace Frames

def empty : Frames := { note := "TOO MANY NESTED BLOCKS", limit := maxBlocks }

/-- The topmost frame of the block that starts at a line, within one call. -/
def place? (fs : Frames) (line depth : Nat) : Option Nat := fs.lastPlace? (Frame.isAt line depth)

/-- Drops the frame of a block and all above it. -/
def leave (fs : Frames) (line depth : Nat) : Frames :=
  match fs.place? line depth with
  | some i => fs.truncate i
  | none => fs

/-- Adds a frame. A block that is entered again by a jump first loses its old
frame and all above it. -/
def enter (fs : Frames) (f : Frame) : Except Error Frames := (fs.leave f.first f.depth).push f

/-- Drops the frames of calls deeper than `depth`. -/
def unwind (fs : Frames) (depth : Nat) : Frames :=
  match fs.lastPlace? fun f => f.depth ≤ depth with
  | some i => fs.truncate (i + 1)
  | none => fs.truncate 0

end Frames

end LineBasic
