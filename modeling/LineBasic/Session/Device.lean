-- Statements for the world outside: printing, drawing, sound, files, time.
import LineBasic.Session.Assign
import LineBasic.Text.Utf8

namespace LineBasic.Run

/-! ## Text -/

def printItem : PrintItem → Run Unit
  | .expression e => do
    let v ← value e
    onScreen (·.print v.render)
  | .comma => onScreen (·.print "\t")
  | .semicolon => pure ()

/-- A comma or a semicolon at the end keeps the cursor on its line. -/
def staysOnLine (items : List PrintItem) : Bool :=
  match items.getLast? with
  | some .comma | some .semicolon => true
  | _ => false

def printStatement (items : List PrintItem) : Run Flow := do
  items.forM printItem
  unless staysOnLine items do onScreen (·.newLine)
  return .next

def color (e : Expression) : Run UInt32 := do
  let n ← integer e
  if n < 0 ∨ 0x100000000 ≤ n.toInt then throw Error.colorOutOfRange
  else return n.toInt.toNat.toUInt32

def colorStatement (foreground : Expression) (background : Option Expression) : Run Flow := do
  let c ← color foreground
  onScreen (·.setForeground c)
  match background with
  | some e => do
    let c ← color e
    onScreen (·.setBackground c)
  | none => pure ()
  return .next

def locateStatement (row column : Expression) : Run Flow := do
  let row ← count row
  let column ← count column
  onScreen (·.moveTo row column)
  return .next

def clsStatement : Run Flow := do
  onScreen (·.clear)
  return .next

/-! ## Shapes -/

/-- The word for a shape and its number of arguments. -/
def shapeArity : Shape → String × Nat
  | .pixel => ("Pixel", 2)
  | .line => ("Line", 4)
  | .rectangle => ("Rectangle", 4)
  | .oval => ("Oval", 4)
  | .circle => ("Circle", 3)
  | .triangle => ("Triangle", 6)
  | .arc => ("Arc", 5)

/-- The points of a shape whose arguments are all INTEGERs. -/
def figure (shape : Shape) (filled : Bool) : List Int64 → List Point
  | [x, y] => if shape = .pixel then [⟨x.toInt, y.toInt⟩] else []
  | [x, y, r] => if shape = .circle then Figure.oval x y r r filled else []
  | [a, b, c, d] =>
    match shape with
    | .line => Segment.points a b c d
    | .rectangle => Figure.rectangle a b c d filled
    | .oval => Figure.oval a b c d filled
    | _ => []
  | [a, b, c, d, e, f] => if shape = .triangle then Figure.triangle a b c d e f filled else []
  | _ => []

def drawStatement (shape : Shape) (args : List Expression) (filled : Bool) : Run Flow := do
  let (word, wanted) := shapeArity shape
  if args.length ≠ wanted then throw (Error.shapeArity word wanted)
  else
    let points ← match shape, args with
      | .arc, [x, y, r, start, stop] => do
        let x ← integer x
        let y ← integer y
        let r ← integer r
        let start ← real start
        let stop ← real stop
        pure (Figure.arc x y r start stop)
      | shape, args => do
        let ns ← args.mapM integer
        pure (figure shape filled ns)
    onScreen (·.paint points)
    return .next

/-! ## Sound -/

def tempoStatement (e : Expression) : Run Flow := do
  let bpm ← real e
  if bpm > 0 then
    onHost (·.record (.tempo bpm))
    return .next
  else throw Error.tempoNeedsPositive

def volumeStatement (e : Expression) : Run Flow := do
  let n ← integer e
  if n < 0 ∨ 100 < n then throw Error.volumeOutOfRange
  else
    onHost (·.record (.volume n.toInt.toNat))
    return .next

def voiceStatement (e : Expression) : Run Flow := do
  let n ← count e
  onHost (·.record (.voice n))
  return .next

def playStatement (voice notes : Expression) : Run Flow := do
  let channel ← count voice
  let notes ← text notes
  onHost (·.record (.play channel notes))
  return .next

def playStopStatement : Run Flow := do
  onHost (·.record .stop)
  return .next

/-! ## Time, chance and views -/

/-- Most seconds that one SLEEP waits. -/
def maxSleep : Float := 1.0e9

def nanoseconds (seconds : Float) : Nat :=
  (Real.toInteger ((if maxSleep < seconds then maxSleep else seconds) * 1.0e9).round).toInt.toNat

def sleepStatement (e : Expression) : Run Flow := do
  let seconds ← real e
  if seconds.isNaN || seconds < 0 then throw Error.sleepNeedsPositive
  else if seconds > 0 then return .rest (nanoseconds seconds)
  else return .next

/-- Without a seed the clock gives one. -/
def randomizeStatement (seed : Option Expression) : Run Flow := do
  let seed ← match seed with
    | some e => do pure (← integer e).toUInt64
    | none => do pure (← host).clock.seed
  setMemory ((← memory).randomize seed)
  return .next

def viewStatement (e : Expression) : Run Flow := do
  let target ← text e
  onHost (·.requestView target)
  return .next

/-! ## Files -/

/-- Bytes as a variable takes them: as text for a STRING, otherwise as an
array of INTEGERs. -/
def valueOfBytes (name : Name) (bytes : ByteArray) : Value :=
  if name.sigil = .string && !name.isArray then .string (Text.decode bytes)
  else .array (Grid.ofBytes bytes)

def byteOf (v : Value) : Except Error UInt8 := do
  let n ← v.toInteger
  if n < 0 ∨ 255 < n then .error Error.byteOutOfRange else return n.toInt.toNat.toUInt8

/-- A value as the bytes to write: the items of an array, or the text of
anything else. -/
def bytesOfValue : Value → Except Error ByteArray
  | .array a => do
    let bytes ← a.items.toList.mapM byteOf
    return ⟨bytes.toArray⟩
  | v => .ok v.render.toUTF8

def openStatement (path : Expression) (mode : FileMode) (handle : Location) : Run Flow := do
  let path ← text path
  let h ← onFiles (Files.opening path mode)
  assign handle (.integer h)
  return .next

def closeStatement (handle : Expression) : Run Flow := do
  let h ← integer handle
  onFiles (Files.closing h)
  return .next

def readStatement (handle amount : Expression) (target : Location) : Run Flow := do
  let h ← integer handle
  let n ← count amount
  let bytes ← onFiles (Files.reading h n)
  assign target (valueOfBytes target.name bytes)
  return .next

def writeStatement (handle data : Expression) : Run Flow := do
  let h ← integer handle
  let bytes ← ofExcept (bytesOfValue (← value data))
  onFiles (Files.writing h bytes)
  return .next

def seekStatement (handle position : Expression) : Run Flow := do
  let h ← integer handle
  let n ← count position
  onFiles (Files.seeking h n)
  return .next

def loadStatement (path : Expression) (target : Location) : Run Flow := do
  let path ← text path
  let bytes ← ofExcept ((← host).files.readAll path)
  assign target (valueOfBytes target.name bytes)
  return .next

def saveStatement (path data : Expression) : Run Flow := do
  let path ← text path
  let bytes ← ofExcept (bytesOfValue (← value data))
  onFiles (Files.saving path bytes)
  return .next

end LineBasic.Run
