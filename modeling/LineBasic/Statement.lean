-- The statements of a program, one a line. Blocks are not nested here: a
-- block is a run of lines between an opening statement and its closing one,
-- and the role of a statement tells which of these it is.
import LineBasic.Expression

namespace LineBasic

/-! ## Parts of statements -/

/-- The kinds of blocks. EXIT and CONTINUE name them, and every active block
has one. A loop with UNTIL at its head counts as a WHILE loop. -/
inductive BlockKind where
  | if
  | while
  | do
  | for
  | select
  | sub
  | try
deriving DecidableEq, Inhabited

namespace BlockKind

def word : BlockKind → String
  | .if => "IF"
  | .while => "WHILE"
  | .do => "DO"
  | .for => "FOR"
  | .select => "SELECT"
  | .sub => "SUB"
  | .try => "TRY"

end BlockKind

/-- The test at either end of a DO loop. -/
inductive Condition where
  | always
  | while (e : Expression)
  | until (e : Expression)
deriving Inhabited

/-- One test of a CASE line. -/
inductive CaseTest where
  | values (es : List Expression)
  | range (low high : Expression)
  | relation (operator : String) (e : Expression)
  | otherwise
deriving Inhabited

inductive PrintItem where
  | expression (e : Expression)
  | comma
  | semicolon
deriving Inhabited

structure Parameter where
  name : Name
  byReference : Bool
deriving DecidableEq, Inhabited

/-- One axis of a DIM. Without a lower bound the upper one is the number of items. -/
structure AxisRange where
  lower : Option Expression
  upper : Expression
deriving Inhabited

inductive Shape where
  | pixel
  | line
  | rectangle
  | oval
  | circle
  | triangle
  | arc
deriving DecidableEq, Inhabited

inductive FileMode where
  | read
  | write
  | append
  | readWrite
deriving DecidableEq, Inhabited

/-! ## Statements -/

inductive Statement where
  | remark (text : String)
  | label (name : Name)
  | assign (target : Location) (e : Expression)
  | localVariable (name : Name) (initial : Option Expression)
  | dim (array : Name) (axes : List AxisRange)
  | swap (a b : Location)
  | push (array : Name) (e : Expression)
  | pop (array : Name) (target : Location)
  | shift (array : Name) (target : Location)
  | unshift (array : Name) (e : Expression)
  | print (items : List PrintItem)
  | if (condition : Expression)
  | elseIf (condition : Expression)
  | else
  | endIf
  | unless (condition : Expression)
  | endUnless
  | while (condition : Expression)
  | wend
  | do (condition : Condition)
  | loop (condition : Condition)
  | until (condition : Expression)
  | uend
  | for (name : Name) (start limit : Expression) (step : Option Expression)
  | next (name : Option Name)
  | select (e : Expression)
  | case (tests : List CaseTest)
  | endSelect
  | try
  | catch (name : Option Name)
  | finally
  | endTry
  | throw (e : Expression)
  | exit (kind : BlockKind) (name : Option Name)
  | continue (kind : BlockKind) (name : Option Name)
  | goto (label : Name)
  | gosub (label : Name)
  | return
  | sub (name : Name) (parameters : List Parameter)
  | endSub
  | call (name : Name) (arguments : List Expression)
  | stop
  | randomize (seed : Option Expression)
  | sleep (seconds : Expression)
  | view (target : Expression)
  | color (foreground : Expression) (background : Option Expression)
  | locate (row column : Expression)
  | cls
  | draw (shape : Shape) (arguments : List Expression) (filled : Bool)
  | tempo (bpm : Expression)
  | volume (level : Expression)
  | voice (index : Expression)
  | play (voice notes : Expression)
  | playStop
  | openFile (path : Expression) (mode : FileMode) (handle : Location)
  | closeFile (handle : Expression)
  | readBytes (handle count : Expression) (target : Location)
  | writeBytes (handle data : Expression)
  | seek (handle position : Expression)
  | loadFile (path : Expression) (target : Location)
  | saveFile (path data : Expression)
deriving Inhabited

/-! ## Roles -/

/-- How a statement takes part in a block. -/
inductive Role where
  | plain
  | opener
  | clause
  | closer
deriving DecidableEq, Inhabited

namespace Statement

def role : Statement → Role
  | .if _ | .unless _ | .while _ | .do _ | .until _ | .for .. | .select _ | .try | .sub .. => .opener
  | .elseIf _ | .else | .case _ | .catch _ | .finally => .clause
  | .endIf | .endUnless | .wend | .loop _ | .uend | .next _ | .endSelect | .endTry | .endSub =>
    .closer
  | _ => .plain

/-- The name of a LABEL line. -/
def label? : Statement → Option Name
  | .label name => some name
  | _ => none

/-! ## What a search for a block looks for -/

def opensIf : Statement → Bool
  | .if _ => true
  | _ => false

def opensIfOrUnless : Statement → Bool
  | .if _ | .unless _ => true
  | _ => false

def closesIf : Statement → Bool
  | .endIf | .endUnless => true
  | _ => false

def endsIfBranch : Statement → Bool
  | .elseIf _ | .else | .endIf | .endUnless => true
  | _ => false

def opensWhile : Statement → Bool
  | .while _ | .until _ => true
  | _ => false

def closesWhile : Statement → Bool
  | .wend | .uend => true
  | _ => false

def opensDo : Statement → Bool
  | .do _ => true
  | _ => false

def closesDo : Statement → Bool
  | .loop _ => true
  | _ => false

def opensFor : Statement → Bool
  | .for .. => true
  | _ => false

/-- A NEXT without a name, or with the name of the loop. -/
def closesFor (name : Name) : Statement → Bool
  | .next none => true
  | .next (some other) => other.alike name
  | _ => false

def opensSelect : Statement → Bool
  | .select _ => true
  | _ => false

def closesSelect : Statement → Bool
  | .endSelect => true
  | _ => false

def endsCase : Statement → Bool
  | .case _ | .endSelect => true
  | _ => false

def opensTry : Statement → Bool
  | .try => true
  | _ => false

def closesTry : Statement → Bool
  | .endTry => true
  | _ => false

def isCatch : Statement → Bool
  | .catch _ => true
  | _ => false

def isFinally : Statement → Bool
  | .finally => true
  | _ => false

def closesSub : Statement → Bool
  | .endSub => true
  | _ => false

end Statement

end LineBasic
