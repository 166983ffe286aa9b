-- Jumps to labels, calls of subroutines, and TRY blocks.
import LineBasic.Session.Machine

namespace LineBasic.Run

/-! ## Labels -/

def labelLine (label : Name) : Run Nat := do
  require ((← read).labelPlace? label) (Error.labelNotFound label)

def gotoStatement (label : Name) : Run Flow := do
  return .jump (← labelLine label)

/-- Opens a scope for a call from the current line. -/
def enterCall (aliases : List (Name × Name)) : Run Unit := do
  let m ← memory
  let vars ← ofExcept (m.variables.enterCall (some (m.line + 1)) aliases)
  setMemory { m with «variables» := vars }

def gosubStatement (label : Name) : Run Flow := do
  let target ← labelLine label
  enterCall []
  return .jump target

/-! ## Subroutines -/

def endOfSub (first : Nat) : Run Nat := do
  require (← closer first Statement.closesSub) { code := .subWithoutEndSub }

/-- A SUB that is met on the way is passed over. -/
def subStatement : Run Flow := do
  return .jump ((← endOfSub (← line)) + 1)

/-- An argument as it is passed: another name for a variable of the caller, or a value. -/
inductive Passed where
  | alias (parameter target : Name)
  | value (parameter : Name) (v : Value)

/-- Only a plain variable can be passed by reference; anything else is copied. -/
def passArgument (p : Parameter) (e : Expression) : Run Passed :=
  match e with
  | .variable target =>
    if p.byReference then return .alias p.name target
    else do return .value p.name (← value e)
  | e => do return .value p.name (← value e)

def passArguments : List Parameter → List Expression → Run (List Passed)
  | p :: ps, e :: es => do
    let a ← passArgument p e
    let rest ← passArguments ps es
    return a :: rest
  | _, _ => return []

def Passed.alias? : Passed → Option (Name × Name)
  | .alias parameter target => some (parameter, target)
  | .value .. => none

/-- Stores the values of parameters as local variables. -/
def bindValues : List Passed → Run Unit
  | [] => return ()
  | .alias .. :: rest => bindValues rest
  | .value parameter v :: rest => do
    storeLocal parameter v
    bindValues rest

def callStatement (name : Name) (args : List Expression) : Run Flow := do
  let first ← require ((← read).subPlace? name) (Error.subNotDefined name)
  match ← statement first with
  | .sub _ params =>
    if params.length ≠ args.length then
      throw (Error.callArity name params.length args.length)
    else
      let last ← endOfSub first
      let passed ← passArguments params args
      enterCall (passed.filterMap Passed.alias?)
      bindValues passed
      enter first last .sub
      return .jump (first + 1)
  | _ => throw (Error.internal "NOT A SUB")

/-! ## TRY -/

def endOfTry (first : Nat) : Run Nat := do
  require (← closer first Statement.closesTry) { code := .tryWithoutEndTry }

def tryStatement : Run Flow := do
  let here ← line
  let last ← endOfTry here
  let catchLine ← closer here Statement.isCatch
  let finallyLine ← closer here Statement.isFinally
  enter here last (.try { phase := .body, catchLine, finallyLine, pending := none })
  return .next

/-- A CATCH that is reached from above: the body ended without an error. -/
def catchStatement : Run Flow := do
  let first ← require (← opener (← line) Statement.opensTry) Error.catchWithoutTry
  match (← framePlace? first).bind (← frames).get? with
  | some f =>
    match f.state with
    | .try { finallyLine := some finallyLine, .. } => return .jump finallyLine
    | _ => return .jump f.last
  | none => return .jump (← endOfTry first)

/-- The frame of the TRY block that the current line belongs to. -/
def tryFrame? : Run (Option (Nat × Nat × Frame)) := do
  match ← opener (← line) Statement.opensTry with
  | none => return none
  | some first =>
    match ← framePlace? first with
    | none => return none
    | some i => return ((← frames).get? i).map fun f => (first, i, f)

def finallyStatement : Run Flow := do
  match ← tryFrame? with
  | some (_, i, { state := .try block, .. }) =>
    setFrameState i (.try { block with phase := .finally })
  | _ => pure ()
  return .next

/-- Leaves the block and raises the error that waited for this. -/
def endTryStatement : Run Flow := do
  match ← tryFrame? with
  | some (first, _, f) =>
    leave first
    match f.state with
    | .try { pending := some e, .. } => throw e
    | _ => return .next
  | none => return .next

def throwStatement (e : Expression) : Run Flow := do
  throw (Error.thrown (← value e).render)

end LineBasic.Run
