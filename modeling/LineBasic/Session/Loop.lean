-- Loops: WHILE, UNTIL, DO and FOR, and the ways out of a block, EXIT and
-- CONTINUE. The closing line of a loop finds the opening line again, tests,
-- and either goes around or leaves.
import LineBasic.Session.Machine

namespace LineBasic.Run

/-! ## Closing lines -/

/-- The first line of the loop that a closing line belongs to. All that was
entered inside the loop is dropped. -/
def loopStart (wanted : Statement → Bool) (code : ErrorCode) : Run Nat := do
  let first ← require (← opener (← line) wanted) { code }
  let i ← require (← framePlace? first) { code }
  truncate (i + 1)
  return first

/-- Goes around a loop once more, or on to the line after it. -/
def repeatOrLeave (first : Nat) (again : Bool) : Run Flow := do
  if again then return .jump (first + 1)
  else
    leave first
    return .next

/-! ## WHILE and UNTIL -/

/-- WHILE, and UNTIL with its condition negated. -/
def whileStatement (e : Expression) (negated : Bool) : Run Flow := do
  let here ← line
  let stop ← require (← closer here Statement.closesWhile)
    { code := if negated then .untilWithoutUend else .whileWithoutWend }
  if (← condition e) != negated then
    enter here stop (.while negated)
    return .next
  else
    leave here
    return .jump (stop + 1)

/-- WEND, and UEND if `negated`. -/
def wendStatement (negated : Bool) : Run Flow := do
  let first ← loopStart Statement.opensWhile
    (if negated then .uendWithoutUntil else .wendWithoutWhile)
  let again ← match ← statement first with
    | .while e => condition e
    | .until e => pure (!(← condition e))
    | _ => pure false
  repeatOrLeave first again

/-! ## DO -/

def test : Condition → Run Bool
  | .always => return true
  | .while e => condition e
  | .until e => do return !(← condition e)

def doStatement (c : Condition) : Run Flow := do
  let here ← line
  let stop ← require (← closer here Statement.closesDo) { code := .doWithoutLoop }
  if ← test c then
    enter here stop .do
    return .next
  else
    leave here
    return .jump (stop + 1)

/-- The test at the end and then the one at the head must both hold. -/
def loopStatement (c : Condition) : Run Flow := do
  let first ← loopStart Statement.opensDo .loopWithoutDo
  let again ← test c
  if again then
    match ← statement first with
    | .do head => repeatOrLeave first (← test head)
    | _ => repeatOrLeave first true
  else repeatOrLeave first false

/-! ## FOR -/

def number (v : Value) : Run Number := require v.number? (Error.forNeedsNumbers v.kind)

def forStatement (name : Name) (start limit : Expression) (step : Option Expression) : Run Flow := do
  let here ← line
  let stop ← require (← closer here (Statement.closesFor name)) { code := .forWithoutNext }
  let start ← number (← value start)
  let limit ← number (← value limit)
  let step ← match step with
    | some e => do number (← value e)
    | none => pure (.integer 1)
  if start.within limit step then
    store name (.ofNumber start)
    let assigned := (← memory).variables.peek name
    enter here stop (.for { name, start, limit, step, counter := start, assigned })
    return .next
  else
    leave here
    return .jump (stop + 1)

/-- The counter of a loop after its body. What the body stored in the variable
counts. -/
def counterAfter (loop : ForLoop) (current : Value) : Run Number :=
  if current.same loop.assigned then pure loop.counter else number current

/-- The step no longer moves the counter, as at the end of the INTEGER range. -/
def stalled (counter next step : Number) : Bool := next.same counter && !step.isZero

/-- Checks the name on a NEXT line against the loop. -/
def checkNext (name : Option Name) (opening : Statement) : Run Unit :=
  match name, opening with
  | some n, .for loop .. =>
    if loop.alike n then pure () else throw (Error.nextOfOtherLoop n loop)
  | _, _ => pure ()

def nextStatement (name : Option Name) : Run Flow := do
  let first ← require (← opener (← line) Statement.opensFor) { code := .nextWithoutFor }
  checkNext name (← statement first)
  let i ← require (← framePlace? first) { code := .nextWithoutFor }
  truncate (i + 1)
  match (← frames).get? i with
  | some { state := .for loop, .. } =>
    let counter ← counterAfter loop (← observe (Eval.get loop.name))
    let next := counter.add loop.step
    let again := !stalled counter next loop.step && next.within loop.limit loop.step
    store loop.name (.ofNumber next)
    let assigned := (← memory).variables.peek loop.name
    setFrameState i (.for { loop with counter := next, assigned })
    repeatOrLeave first again
  | _ => throw (Error.internal "NOT A FOR FRAME")

/-! ## EXIT and CONTINUE -/

/-- A frame of a kind in the current call. A name picks a FOR loop by its
variable and says nothing about other blocks. -/
def isTarget (kind : BlockKind) (name : Option Name) (depth : Nat) (f : Frame) : Bool :=
  f.depth = depth && f.kind = kind &&
    match name, f.state with
    | some n, .for loop => loop.name.alike n
    | _, _ => true

/-- Place of the innermost block that EXIT or CONTINUE acts on. -/
def target? (kind : BlockKind) (name : Option Name) : Run (Option Nat) := do
  return (← frames).lastPlace? (isTarget kind name (← depth))

/-- Leaves a block for the line after it. A SUB is left by its last line, so
that the call returns. Without such a block nothing happens. -/
def exitStatement (kind : BlockKind) (name : Option Name) : Run Flow := do
  match ← target? kind name with
  | none => return .next
  | some i =>
    let f ← require ((← frames).get? i) (Error.internal "FRAME VANISHED")
    if kind = .sub then
      truncate (i + 1)
      return .jump f.last
    else
      truncate i
      return .jump (f.last + 1)

/-- Goes to the last line of a block, which tests or counts. -/
def continueStatement (kind : BlockKind) (name : Option Name) : Run Flow := do
  match ← target? kind name with
  | none => return .next
  | some i =>
    truncate (i + 1)
    let f ← require ((← frames).get? i) (Error.internal "FRAME VANISHED")
    return .jump f.last

end LineBasic.Run
