-- The functions that a program can call: their names, how many arguments they
-- take, and what they compute. Only RND draws on anything that it changes.
import LineBasic.Clock
import LineBasic.Files
import LineBasic.Function.Excerpt
import LineBasic.Function.Numeric
import LineBasic.Memory.Basic
import LineBasic.Text.CaseMap
import LineBasic.Value.Grid
import LineBasic.Value.Render

namespace LineBasic

/-- A function whose result depends on its arguments and on what can be seen. -/
inductive Builtin where
  | inkey
  | timer
  | time
  | date
  | abs
  | sgn
  | int
  | fix
  | sqrt
  | exp
  | log
  | sin
  | cos
  | tan
  | atn
  | real
  | imag
  | conj
  | arg
  | len
  | ucase
  | lcase
  | trim
  | str
  | val
  | chr
  | asc
  | keydown
  | eof
  | tell
  | round
  | lbound
  | ubound
  | left
  | right
  | mid
  | instr
deriving DecidableEq, Inhabited

/-- A function that a program can call. -/
inductive Function where
  | random
  | builtin (b : Builtin)
deriving DecidableEq, Inhabited

namespace Function

/-- The function of a name in capitals. -/
def ofText? : String → Option Function
  | "RND" => some .random
  | "INKEY$" => some (.builtin .inkey)
  | "TIMER" => some (.builtin .timer)
  | "TIME$" => some (.builtin .time)
  | "DATE$" => some (.builtin .date)
  | "ABS" => some (.builtin .abs)
  | "SGN" => some (.builtin .sgn)
  | "INT" => some (.builtin .int)
  | "FIX" => some (.builtin .fix)
  | "SQRT" => some (.builtin .sqrt)
  | "SQR" => some (.builtin .sqrt)
  | "EXP" => some (.builtin .exp)
  | "LOG" => some (.builtin .log)
  | "SIN" => some (.builtin .sin)
  | "COS" => some (.builtin .cos)
  | "TAN" => some (.builtin .tan)
  | "ATN" => some (.builtin .atn)
  | "REAL" => some (.builtin .real)
  | "IMAG" => some (.builtin .imag)
  | "CONJ" => some (.builtin .conj)
  | "ARG" => some (.builtin .arg)
  | "LEN" => some (.builtin .len)
  | "UCASE$" => some (.builtin .ucase)
  | "LCASE$" => some (.builtin .lcase)
  | "TRIM$" => some (.builtin .trim)
  | "STR$" => some (.builtin .str)
  | "VAL" => some (.builtin .val)
  | "CHR$" => some (.builtin .chr)
  | "ASC" => some (.builtin .asc)
  | "KEYDOWN" => some (.builtin .keydown)
  | "EOF" => some (.builtin .eof)
  | "TELL" => some (.builtin .tell)
  | "ROUND" => some (.builtin .round)
  | "LBOUND" => some (.builtin .lbound)
  | "UBOUND" => some (.builtin .ubound)
  | "LEFT$" => some (.builtin .left)
  | "RIGHT$" => some (.builtin .right)
  | "MID$" => some (.builtin .mid)
  | "INSTR" => some (.builtin .instr)
  | _ => none

/-- How many arguments the function of a name in capitals takes: the least and
the greatest number. -/
def arityOf? : String → Option (Nat × Nat)
  | "RND" | "INKEY$" | "TIMER" | "TIME$" | "DATE$" => some (0, 0)
  | "ABS" | "SGN" | "INT" | "FIX" | "SQRT" | "SQR" | "EXP" | "LOG" | "SIN" | "COS" | "TAN" | "ATN"
  | "REAL" | "IMAG" | "CONJ" | "ARG" | "LEN" | "UCASE$" | "LCASE$" | "TRIM$" | "STR$" | "VAL"
  | "CHR$" | "ASC" | "KEYDOWN" | "EOF" | "TELL" => some (1, 1)
  | "ROUND" | "LBOUND" | "UBOUND" => some (1, 2)
  | "LEFT$" | "RIGHT$" => some (2, 2)
  | "MID$" | "INSTR" => some (2, 3)
  | _ => none

/-- The least and the greatest number of arguments. -/
def arity : Function → Nat × Nat
  | .random => (0, 0)
  | .builtin b =>
    match b with
    | .inkey | .timer | .time | .date => (0, 0)
    | .round | .lbound | .ubound => (1, 2)
    | .left | .right => (2, 2)
    | .mid | .instr => (2, 3)
    | _ => (1, 1)

end Function

/-- What an expression can see and never changes. -/
structure View where
  «variables» : Variables
  keyboard : Keyboard
  files : Files
  clock : Clock
deriving Inhabited

namespace Builtin

/-- Lowest and highest index of an axis of an array. -/
def boundsOf (word : String) (v axis : Value) : Except Error (Int64 × Int64) :=
  match v with
  | .array a => do a.bounds (max (← axis.toCount) 1)
  | v => .error (Error.notAccepted word v.kind)

/-- The result for as many arguments as the function takes. An argument that
was left out counts as zero. -/
def compute (view : View) (args : List Value) (b : Builtin) : Except Error Value :=
  let first := args.getD 0 (.integer 0)
  let second := args.getD 1 (.integer 0)
  match b with
  | .inkey => .ok (.string view.keyboard.last)
  | .keydown => do return .ofBool (view.keyboard.isDown (← first.toText))
  | .timer => .ok (.real view.clock.timer)
  | .time => .ok (.string view.clock.time)
  | .date => .ok (.string view.clock.date)
  | .eof => do return .ofBool (← view.files.atEnd (← first.toInteger))
  | .tell => do return .integer (Int64.ofNat (← view.files.tell (← first.toInteger)))
  | .abs => Numeric.abs first
  | .sgn => Numeric.sgn first
  | .int => Numeric.int first
  | .fix => do return .integer (← first.toInteger)
  | .round => do Numeric.round (← first.toReal) (← second.toInteger)
  | .sqrt => Numeric.sqrt first
  | .exp => Numeric.exp first
  | .log => Numeric.log first
  | .sin => Numeric.sin first
  | .cos => Numeric.cos first
  | .tan => do return .real (← first.toReal).tan
  | .atn => do return .real (← first.toReal).atan
  | .real => do return .real (← first.toComplex).re
  | .imag => do return .real (← first.toComplex).im
  | .conj => do return .complex (← first.toComplex).conjugate
  | .arg => do return .real (← first.toComplex).argument
  | .len =>
    match first with
    | .string s => .ok (.integer (Int64.ofNat s.length))
    | .array a => .ok (.integer (Int64.ofNat a.size))
    | v => .error (Error.notAccepted "LEN" v.kind)
  | .lbound => do return .integer (← boundsOf "LBOUND" first second).1
  | .ubound => do return .integer (← boundsOf "UBOUND" first second).2
  | .ucase => do return .string (Text.upper (← first.toText))
  | .lcase => do return .string (Text.lower (← first.toText))
  | .trim => do return .string (Text.trim (← first.toText))
  | .str => .ok (.string first.render)
  | .val => do return Excerpt.val (← first.toText)
  | .chr => do return .string (← Excerpt.chr (← first.toInteger))
  | .asc => do return .integer (← Excerpt.asc (← first.toText))
  | .left => do return .string (Excerpt.left (← first.toText) (← second.toCount))
  | .right => do return .string (Excerpt.right (← first.toText) (← second.toCount))
  | .mid => do
    let s ← first.toText
    let start ← second.toCount
    if start < 1 then .error Error.sliceStart
    else
      let length ← args[2]?.mapM (·.toCount)
      return .string (Excerpt.mid s start length)
  | .instr => do
    let text ← first.toText
    let needle ← second.toText
    let start ← (args.getD 2 (.integer 1)).toCount
    return .integer (Int64.ofNat (Excerpt.instr text needle start))

end Builtin

end LineBasic
