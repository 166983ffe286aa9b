-- What an expression stands for. Evaluating an expression sees variables, the
-- keyboard, files and the clock, and changes none of them. It leaves behind
-- only how names were spelled and how many random numbers were drawn.
import LineBasic.Expression
import LineBasic.Function.Table
import LineBasic.Value.Operator

namespace LineBasic

namespace BinaryOperator

def apply : BinaryOperator → Value → Value → Except Error Value
  | .power => Value.power
  | .multiply => Value.multiply
  | .divide => Value.divide
  | .divideInt => Value.divideInt
  | .modulo => Value.modulo
  | .add => Value.sum
  | .subtract => Value.subtract
  | .equal => Value.equal
  | .notEqual => Value.notEqual
  | .less => Value.less
  | .lessEqual => Value.lessEqual
  | .greater => Value.greater
  | .greaterEqual => Value.greaterEqual
  | .and => Value.and
  | .or => Value.or
  | .xor => Value.xor

end BinaryOperator

/-! ## Parts of values -/

/-- A member of a structure. -/
def Value.member (field : Name) : Value → Except Error Value
  | .record members =>
    match members.get? field.key with
    | some v => .ok v
    | none => .error (Error.noMember field)
  | v => .error (Error.hasNoMembers v.kind)

/-- The type that holds two types of items; text wins over all others. -/
def Kind.join : Kind → Kind → Kind
  | .integer, .real => .real
  | .integer, .complex | .real, .complex => .complex
  | .string, _ | _, .string => .string
  | k, _ => k

/-- The type of the elements of an array literal. -/
def elementKind : List Value → Kind
  | [] => .integer
  | v :: vs => vs.foldl (fun k w => k.join w.kind) v.kind

/-! ## Evaluation -/

/-- A computation that sees a view and adds to the trail. -/
abbrev Eval := ReaderT View (EStateM Error Trail)

namespace Eval

def ofExcept {α : Type} : Except Error α → Eval α
  | .ok a => pure a
  | .error e => throw e

def remember (name : Name) : Eval Unit := modify (·.remember name)

def get (name : Name) : Eval Value := do
  remember name
  return (← read).variables.peek name

def element (name : Name) (indexes : List Int64) : Eval Value := do
  remember name
  ofExcept ((← read).variables.element name indexes)

/-- Draws a random number. -/
def draw : Eval Value := do
  let t ← getThe Trail
  let (x, g) := t.random.draw
  set { t with random := g }
  return .real x

/-- Calls a function. Its name is looked up only now, after its arguments:
first for how many arguments it takes, then for what it computes. -/
def call (name : Name) (args : List Value) : Eval Value :=
  let word := name.key.text
  match Function.arityOf? word with
  | none => throw (Error.unknownFunction name)
  | some (least, most) =>
    if least ≤ args.length && args.length ≤ most then
      match Function.ofText? word with
      | some .random => draw
      | some (.builtin b) => do ofExcept (b.compute (← read) args)
      | none => throw (Error.internal "FUNCTION TABLE")
    else throw (Error.functionArity word least most)

end Eval

mutual

def evaluate : Expression → Eval Value
  | .integer n => pure (.integer n)
  | .real x => pure (.real x)
  | .string s => pure (.string s)
  | .imaginary x => pure (.complex ⟨0, x⟩)
  | .variable name => Eval.get name
  | .element name indexes => do
    let is ← evaluateIndexes indexes
    Eval.element (name.ofArray is.length) is
  | .member record field => do
    Eval.ofExcept ((← evaluate record).member field)
  | .array items => do
    let vs ← evaluateAll items
    return .array (← Eval.ofExcept (Grid.ofItems (elementKind vs) vs))
  | .record members => do
    return .record (← evaluateMembers {} members)
  | .call function args => do
    Eval.call function (← evaluateAll args)
  | .negate e => do Eval.ofExcept (← evaluate e).negate
  | .not e => do Eval.ofExcept (← evaluate e).not
  | .binary op l r => do
    let v ← evaluate l
    let w ← evaluate r
    Eval.ofExcept (op.apply v w)

/-- Every value, from left to right. -/
def evaluateAll : List Expression → Eval (List Value)
  | [] => pure []
  | e :: es => do
    let v ← evaluate e
    let vs ← evaluateAll es
    return v :: vs

/-- Every index, from left to right; each has to be a whole number before the
next is looked at. -/
def evaluateIndexes : List Expression → Eval (List Int64)
  | [] => pure []
  | e :: es => do
    let i ← Eval.ofExcept (← evaluate e).toInteger
    let is ← evaluateIndexes es
    return i :: is

/-- Adds members; a later one replaces an earlier one of its name. -/
def evaluateMembers (sofar : Table Name Value) : List (Name × Expression) → Eval (Table Name Value)
  | [] => pure sofar
  | (name, e) :: rest => do
    let v ← evaluate e
    evaluateMembers (sofar.insert name.key v) rest

end

/-! ## Locations -/

/-- The member at the end of a path. -/
def Value.memberAt (v : Value) : List Name → Except Error Value
  | [] => .ok v
  | field :: rest => do (← v.member field).memberAt rest

/-- What a location holds. -/
def Location.read : Location → Eval Value
  | .variable name => Eval.get name
  | .element name indexes => do
    let is ← evaluateIndexes indexes
    Eval.element (name.ofArray is.length) is
  | .member name path => do
    Eval.ofExcept ((← Eval.get name).memberAt path)

end LineBasic
