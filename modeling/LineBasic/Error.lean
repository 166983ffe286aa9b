-- What can go wrong while a program runs. An error has a code, the line that
-- raised it, and a message. Every message of the language is worded here.
import LineBasic.Kind

namespace LineBasic

/-! ## Codes -/

inductive ErrorCode where
  | break
  | syntaxError
  | illegalFunctionCall
  | overflow
  | outOfMemory
  | labelNotFound
  | subscriptOutOfRange
  | divisionByZero
  | typeMismatch
  | nextWithoutFor
  | forWithoutNext
  | whileWithoutWend
  | wendWithoutWhile
  | doWithoutLoop
  | loopWithoutDo
  | untilWithoutUend
  | uendWithoutUntil
  | ifWithoutEndIf
  | elseIfWithoutIf
  | selectWithoutEndSelect
  | caseWithoutSelect
  | unknownOperator
  | tryWithoutEndTry
  | subWithoutEndSub
  | undefinedSub
  | wrongNumberOfArguments
  | thrown
  | internalError
  | badFileNumber
  | fileNotFound
  | badFileMode
deriving DecidableEq, Inhabited

namespace ErrorCode

def number : ErrorCode → Nat
  | .break => 1
  | .syntaxError => 2
  | .illegalFunctionCall => 5
  | .overflow => 6
  | .outOfMemory => 7
  | .labelNotFound => 8
  | .subscriptOutOfRange => 9
  | .divisionByZero => 11
  | .typeMismatch => 13
  | .nextWithoutFor => 20
  | .forWithoutNext => 21
  | .whileWithoutWend => 22
  | .wendWithoutWhile => 23
  | .doWithoutLoop => 24
  | .loopWithoutDo => 25
  | .untilWithoutUend => 26
  | .uendWithoutUntil => 27
  | .ifWithoutEndIf => 28
  | .elseIfWithoutIf => 29
  | .selectWithoutEndSelect => 30
  | .caseWithoutSelect => 31
  | .unknownOperator => 32
  | .tryWithoutEndTry => 33
  | .subWithoutEndSub => 34
  | .undefinedSub => 35
  | .wrongNumberOfArguments => 36
  | .thrown => 40
  | .internalError => 51
  | .badFileNumber => 52
  | .fileNotFound => 53
  | .badFileMode => 54

def text : ErrorCode → String
  | .break => "BREAK"
  | .syntaxError => "SYNTAX ERROR"
  | .illegalFunctionCall => "ILLEGAL FUNCTION CALL"
  | .overflow => "OVERFLOW"
  | .outOfMemory => "OUT OF MEMORY"
  | .labelNotFound => "UNDEFINED LABEL"
  | .subscriptOutOfRange => "SUBSCRIPT OUT OF RANGE"
  | .divisionByZero => "DIVISION BY ZERO"
  | .typeMismatch => "TYPE MISMATCH"
  | .nextWithoutFor => "NEXT WITHOUT FOR"
  | .forWithoutNext => "FOR WITHOUT NEXT"
  | .whileWithoutWend => "WHILE WITHOUT WEND"
  | .wendWithoutWhile => "WEND WITHOUT WHILE"
  | .doWithoutLoop => "DO WITHOUT LOOP"
  | .loopWithoutDo => "LOOP WITHOUT DO"
  | .untilWithoutUend => "UNTIL WITHOUT UEND"
  | .uendWithoutUntil => "UEND WITHOUT UNTIL"
  | .ifWithoutEndIf => "IF WITHOUT END IF"
  | .elseIfWithoutIf => "ELSEIF WITHOUT IF"
  | .selectWithoutEndSelect => "SELECT WITHOUT END SELECT"
  | .caseWithoutSelect => "CASE WITHOUT SELECT"
  | .unknownOperator => "UNKNOWN OPERATOR"
  | .tryWithoutEndTry => "TRY WITHOUT END TRY"
  | .subWithoutEndSub => "SUB WITHOUT END SUB"
  | .undefinedSub => "UNDEFINED SUB"
  | .wrongNumberOfArguments => "WRONG NUMBER OF ARGUMENTS"
  | .thrown => "UNHANDLED EXCEPTION"
  | .internalError => "INTERNAL ERROR"
  | .badFileNumber => "BAD FILE NUMBER"
  | .fileNotFound => "FILE NOT FOUND"
  | .badFileMode => "BAD FILE MODE"

/-- A structural error means that the program itself is malformed. No TRY block
takes it. -/
def isStructural : ErrorCode → Bool
  | .labelNotFound | .nextWithoutFor | .forWithoutNext | .whileWithoutWend
  | .wendWithoutWhile | .doWithoutLoop | .loopWithoutDo | .untilWithoutUend
  | .uendWithoutUntil | .ifWithoutEndIf | .elseIfWithoutIf | .selectWithoutEndSelect
  | .caseWithoutSelect | .tryWithoutEndTry | .subWithoutEndSub | .undefinedSub
  | .internalError => true
  | _ => false

end ErrorCode

/-! ## Errors -/

/-- An empty message means that the code says it all. -/
structure Error where
  code : ErrorCode
  line : Option Nat := none
  message : String := ""
deriving DecidableEq, Inhabited

namespace Error

def isStructural (e : Error) : Bool := e.code.isStructural

/-- Notes the line of an error that has none. An error that is raised again
keeps the line of the statement that failed first. -/
def inLine (e : Error) (line : Nat) : Error :=
  match e.line with
  | some _ => e
  | none => { e with line := some line }

/-- The message if there is one, otherwise the text of the code. This is what
the variable of a CATCH receives. -/
def description (e : Error) : String :=
  if e.message.isEmpty then e.code.text else e.message

/-- The whole report. People count lines from one. -/
def render (e : Error) : String :=
  let place := match e.line with
    | some line => " IN LINE " ++ toString (line + 1)
    | none => ""
  let detail := if e.message.isEmpty then "" else "; " ++ e.message
  e.code.text ++ place ++ detail

/-- The report in the form that a log takes. -/
def inspect (e : Error) : String := "Error \x7b " ++ e.render ++ " \x7d"

/-! ## Values -/

def stringToNumber : Error :=
  { code := .typeMismatch, message := "Cannot convert STRING to number" }

def cannotConvert (source target : Kind) : Error :=
  { code := .typeMismatch,
    message := "Cannot convert " ++ source.word ++ " to " ++ target.word }

def notNumeric (kind : Kind) : Error :=
  { code := .typeMismatch, message := "Cannot convert " ++ kind.word ++ " to number" }

def nonFinite : Error :=
  { code := .overflow, message := "Cannot convert non-finite REAL to INTEGER" }

def negativeValue : Error :=
  { code := .illegalFunctionCall, message := "Negative value not allowed" }

def compareStringWithNumber : Error :=
  { code := .typeMismatch, message := "Cannot compare STRING with number" }

def cannotCompare (left right : Kind) : Error :=
  { code := .typeMismatch,
    message := "Cannot compare " ++ left.word ++ " with " ++ right.word }

def expectedString (kind : Kind) : Error :=
  { code := .typeMismatch, message := "Expected STRING, got " ++ kind.word }

/-! ## Operators -/

def divisionByZero : Error := { code := .divisionByZero }

def overflow : Error := { code := .overflow }

def notNeedsInteger (kind : Kind) : Error :=
  { code := .typeMismatch, message := "NOT requires INTEGER, got " ++ kind.word }

def needsIntegers (operator : String) (left right : Kind) : Error :=
  { code := .typeMismatch,
    message := operator ++ " requires INTEGER operands, got " ++ left.word ++ " and " ++ right.word }

def complexQuotient : Error :=
  { code := .typeMismatch, message := "Integer division of COMPLEX" }

def complexRemainder : Error := { code := .typeMismatch, message := "MOD of COMPLEX" }

def complexUnordered : Error :=
  { code := .typeMismatch, message := "COMPLEX values are not ordered" }

/-! ## Arrays and structures -/

def arrayTooLarge : Error := { code := .outOfMemory, message := "Array too large" }

def wrongSubscriptCount : Error :=
  { code := .subscriptOutOfRange, message := "Wrong number of subscripts" }

def negativeSubscript : Error :=
  { code := .subscriptOutOfRange, message := "Negative subscript" }

def indexOutOfBounds (index : Int) : Error :=
  { code := .subscriptOutOfRange, message := "Index " ++ toString index ++ " out of bounds" }

def subscriptOutOfRange : Error := { code := .subscriptOutOfRange }

def fixedDimensions : Error :=
  { code := .illegalFunctionCall, message := "Array has fixed dimensions" }

def noSuchDimension : Error :=
  { code := .subscriptOutOfRange, message := "No such dimension" }

def negativeArraySize : Error :=
  { code := .subscriptOutOfRange, message := "Negative array size" }

def notAnArray (kind : Kind) : Error :=
  { code := .typeMismatch, message := kind.word ++ " is not an array" }

def cannotAssignToArray (kind : Kind) : Error :=
  { code := .typeMismatch, message := "Cannot assign " ++ kind.word ++ " to array" }

def noMember (field : Name) : Error :=
  { code := .illegalFunctionCall, message := "No member " ++ field.text }

def hasNoMembers (kind : Kind) : Error :=
  { code := .typeMismatch, message := kind.word ++ " has no members" }

def swapKinds : Error :=
  { code := .typeMismatch, message := "SWAP needs two values of the same type" }

/-! ## Functions -/

def unknownFunction (name : Name) : Error :=
  { code := .illegalFunctionCall, message := "Unknown function " ++ name.text }

def functionArity (name : String) (least most : Nat) : Error :=
  { code := .wrongNumberOfArguments,
    message := name ++ " expects " ++ toString least ++ " to " ++ toString most ++ " arguments" }

def notAccepted (function : String) (kind : Kind) : Error :=
  { code := .typeMismatch, message := function ++ " does not accept " ++ kind.word }

def invalidCharacterCode : Error :=
  { code := .illegalFunctionCall, message := "Invalid character code" }

def emptyStringCode : Error :=
  { code := .illegalFunctionCall, message := "ASC of empty string" }

def sliceStart : Error :=
  { code := .illegalFunctionCall, message := "MID$ start must be at least 1" }

/-! ## Control flow -/

def conditionKind (kind : Kind) : Error :=
  { code := .typeMismatch, message := "Condition must be INTEGER, got " ++ kind.word }

def elseWithoutIf : Error := { code := .elseIfWithoutIf, message := "ELSE WITHOUT IF" }

def catchWithoutTry : Error := { code := .tryWithoutEndTry, message := "CATCH WITHOUT TRY" }

def unknownCaseOperator (operator : String) : Error :=
  { code := .unknownOperator, message := "Unknown CASE operator '" ++ operator ++ "'" }

def forNeedsNumbers (kind : Kind) : Error :=
  { code := .typeMismatch, message := "FOR needs numbers, got " ++ kind.word }

def nextOfOtherLoop (name loop : Name) : Error :=
  { code := .nextWithoutFor,
    message := "NEXT " ++ name.text ++ " does not close FOR " ++ loop.text }

def labelNotFound (label : Name) : Error :=
  { code := .labelNotFound, message := "Label '" ++ label.text ++ "' not found" }

def subNotDefined (name : Name) : Error :=
  { code := .undefinedSub, message := "SUB " ++ name.text ++ " not defined" }

def callArity (name : Name) (wanted given : Nat) : Error :=
  { code := .wrongNumberOfArguments,
    message := name.text ++ " expects " ++ toString wanted ++ " arguments, got " ++ toString given }

def thrown (message : String) : Error := { code := .thrown, message }

def interrupted (line : Nat) : Error := { code := .break, line := some line }

/-- A state that no run of a program reaches by itself; editing a program in
the middle of its run can. -/
def internal (note : String) : Error := { code := .internalError, message := note }

def overfull (note : String) : Error := { code := .outOfMemory, message := note }

/-! ## Devices and files -/

def sleepNeedsPositive : Error :=
  { code := .illegalFunctionCall, message := "SLEEP needs a positive number of seconds" }

def colorOutOfRange : Error :=
  { code := .illegalFunctionCall, message := "Color out of range" }

def shapeArity (shape : String) (wanted : Nat) : Error :=
  { code := .wrongNumberOfArguments,
    message := shape ++ " expects " ++ toString wanted ++ " arguments" }

def tempoNeedsPositive : Error :=
  { code := .illegalFunctionCall, message := "TEMPO must be positive" }

def volumeOutOfRange : Error :=
  { code := .illegalFunctionCall, message := "VOLUME must be 0 to 100" }

def byteOutOfRange : Error := { code := .illegalFunctionCall, message := "Byte out of range" }

def noOpenFile (handle : Int) : Error :=
  { code := .badFileNumber, message := "No open file #" ++ toString handle }

def fileNotFound (path : String) : Error := { code := .fileNotFound, message := path }

def notOpenForReading : Error :=
  { code := .badFileMode, message := "File not open for reading" }

def notOpenForWriting : Error :=
  { code := .badFileMode, message := "File not open for writing" }

def fileTooLarge : Error := { code := .outOfMemory, message := "File too large" }

def seekOutOfRange : Error :=
  { code := .illegalFunctionCall, message := "Seek position out of range" }

end Error

end LineBasic
