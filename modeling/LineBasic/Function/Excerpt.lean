-- The functions on text. Positions count characters, from one.
import LineBasic.Decimal.Numeral
import LineBasic.Text.Blank
import LineBasic.Value.Convert

namespace LineBasic.Excerpt

/-! ## Parts of a text -/

def left (s : String) (n : Nat) : String := String.ofList (s.toList.take n)

def right (s : String) (n : Nat) : String :=
  let cs := s.toList
  String.ofList (cs.drop (cs.length - n))

/-- Up to `length` characters from position `start` on; all of them without a length. -/
def mid (s : String) (start : Nat) (length : Option Nat) : String :=
  let tail := s.toList.drop (start - 1)
  match length with
  | some n => String.ofList (tail.take n)
  | none => String.ofList tail

/-! ## The search for a text

A text is searched byte by byte, and the place that was found is then counted in characters. -/

/-- The bytes that characters are stored as. -/
def bytes (cs : List Char) : List UInt8 := cs.flatMap String.utf8EncodeChar

/-- The first place, counted from `place`, at which a list begins with another. -/
def firstMatch {α : Type} [BEq α] (needle : List α) (place : Nat) : List α → Option Nat
  | [] => if needle.isEmpty then some place else none
  | x :: xs =>
    if needle.isPrefixOf (x :: xs) then some place else firstMatch needle (place + 1) xs

/-- The position, counted from `place`, of the character that lies `offset` bytes on. -/
def positionAt (place offset : Nat) : List Char → Nat
  | [] => place
  | c :: cs =>
    if offset < c.utf8Size then place else positionAt (place + 1) (offset - c.utf8Size) cs

/-- The first position from `start` on at which one text stands in another; zero if there is none. -/
def instr (text needle : String) (start : Nat) : Nat :=
  let start := max start 1
  let tail := text.toList.drop (start - 1)
  match firstMatch (bytes needle.toList) 0 (bytes tail) with
  | some offset => positionAt start offset tail
  | none => 0

/-! ## Characters and codes -/

def chr (code : Int64) : Except Error String :=
  let n := code.toInt
  if h : 0 ≤ n ∧ n.toNat.isValidChar then
    .ok (String.singleton (Char.ofNatAux n.toNat h.2))
  else .error Error.invalidCharacterCode

def asc (s : String) : Except Error Int64 :=
  match s.toList with
  | c :: _ => .ok (Int64.ofNat c.toNat)
  | [] => .error Error.emptyStringCode

/-! ## Numbers in a text -/

/-- The REAL from which on a whole number without a point reads as a REAL. -/
def integerLimit : Float := 9.0e15

/-- The number at the start of a text. A whole number of 64 bits is exact; a
text that starts with no number counts as zero. -/
def val (s : String) : Value :=
  let cs := Text.trimmed s.toList
  let written :=
    match Decimal.scan? cs with
    | none => Value.integer 0
    | some (numeral, _) =>
      let x := numeral.toReal
      if Real.isWhole x && x.abs < integerLimit && !numeral.isPointed then
        .integer (Real.toInteger x)
      else .real x
  match Decimal.readInt? cs with
  | some n => if Real.fits n then .integer (Int64.ofInt n) else written
  | none => written

end LineBasic.Excerpt
