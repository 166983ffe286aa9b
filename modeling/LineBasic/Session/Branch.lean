-- Blocks that choose: IF with its clauses, UNLESS, and SELECT CASE. A frame
-- remembers whether a branch was taken, so that later clauses are passed over.
import LineBasic.Session.Machine

namespace LineBasic.Run

/-! ## IF and UNLESS -/

def endOfIf (line : Nat) : Run Nat := do
  require (← closer line Statement.closesIf) { code := .ifWithoutEndIf }

/-- The next clause after a line, or the end of its block. -/
def clauseOr (stop : Nat) (line : Nat) (wanted : Statement → Bool) : Run Flow := do
  return .jump ((← closer line wanted).getD stop)

/-- IF, and UNLESS with its condition negated. -/
def ifStatement (e : Expression) (negated : Bool) : Run Flow := do
  let here ← line
  let stop ← endOfIf here
  let taken := (← condition e) != negated
  enter here stop (.if taken)
  if taken then return .next else clauseOr stop here Statement.endsIfBranch

/-- An IF block seen from one of its clauses: a frame, or only its last line
if a jump led into the block. -/
inductive IfBlock where
  | active (place : Nat) (frame : Frame)
  | skipped (last : Nat)

def ifBlock (first : Nat) : Run IfBlock := do
  match ← framePlace? first with
  | some i =>
    let f ← require ((← frames).get? i) (Error.internal "FRAME VANISHED")
    return .active i f
  | none => return .skipped (← endOfIf first)

def branchTaken : FrameState → Bool
  | .if taken => taken
  | _ => false

def elseIfStatement (e : Expression) : Run Flow := do
  let here ← line
  let first ← require (← opener here Statement.opensIf) { code := .elseIfWithoutIf }
  match ← ifBlock first with
  | .skipped last => return .jump last
  | .active i f =>
    if branchTaken f.state then return .jump f.last
    else if ← condition e then
      setFrameState i (.if true)
      return .next
    else clauseOr f.last here Statement.endsIfBranch

def elseStatement : Run Flow := do
  let here ← line
  let first ← require (← opener here Statement.opensIfOrUnless) Error.elseWithoutIf
  match ← ifBlock first with
  | .skipped last => return .jump last
  | .active i f =>
    if branchTaken f.state then return .jump f.last
    else
      setFrameState i (.if true)
      return .next

def endIfStatement : Run Flow := do
  match ← opener (← line) Statement.opensIfOrUnless with
  | some first => leave first
  | none => pure ()
  return .next

/-! ## SELECT CASE -/

def endOfSelect (line : Nat) : Run Nat := do
  require (← closer line Statement.closesSelect) { code := .selectWithoutEndSelect }

def selectStatement (e : Expression) : Run Flow := do
  let here ← line
  let stop ← endOfSelect here
  enter here stop (.select (← value e) false)
  clauseOr stop here Statement.endsCase

/-- The meaning of a comparison sign between an order and a CASE. -/
def relationHolds (order : Option Ordering) : String → Except Error Bool
  | "=" => .ok (order = some .eq)
  | "<>" => .ok (order ≠ some .eq)
  | "<" => .ok (order = some .lt)
  | ">" => .ok (order = some .gt)
  | "<=" => .ok (order = some .lt || order = some .eq)
  | ">=" => .ok (order = some .gt || order = some .eq)
  | operator => .error (Error.unknownCaseOperator operator)

/-- One of several values equals the selector. -/
def matchesOne (selector : Value) : List Expression → Run Bool
  | [] => return false
  | e :: es => do
    if (← ofExcept (selector.compare (← value e))) = some .eq then return true
    else matchesOne selector es

def caseMatches (selector : Value) : CaseTest → Run Bool
  | .otherwise => return true
  | .values es => matchesOne selector es
  | .range low high => do
    let low ← value low
    let high ← value high
    let above ← ofExcept (selector.compare low)
    let below ← ofExcept (selector.compare high)
    return (above = some .gt || above = some .eq) && (below = some .lt || below = some .eq)
  | .relation operator e => do
    let order ← ofExcept (selector.compare (← value e))
    ofExcept (relationHolds order operator)

/-- One of several tests holds; later tests are not looked at. -/
def anyMatches (selector : Value) : List CaseTest → Run Bool
  | [] => return false
  | t :: ts => do
    if ← caseMatches selector t then return true else anyMatches selector ts

def caseStatement (tests : List CaseTest) : Run Flow := do
  let here ← line
  let first ← require (← opener here Statement.opensSelect) { code := .caseWithoutSelect }
  match ← framePlace? first with
  | none => return .jump (← endOfSelect first)
  | some i =>
    let f ← require ((← frames).get? i) (Error.internal "FRAME VANISHED")
    match f.state with
    | .select selector matched =>
      if matched then return .jump f.last
      else if ← anyMatches selector tests then
        setFrameState i (.select selector true)
        return .next
      else clauseOr f.last here Statement.endsCase
    | _ => throw (Error.internal "NOT A SELECT FRAME")

def endSelectStatement : Run Flow := do
  match ← opener (← line) Statement.opensSelect with
  | some first => leave first
  | none => pure ()
  return .next

end LineBasic.Run
