-- Numbers as people write them: digits with an optional point, sign and
-- exponent, or a word for what is not a finite number. A reader takes the
-- longest part of a text that is a number and hands back the rest.
import LineBasic.Real.Binary

namespace LineBasic.Decimal

/-- A number as it is written. -/
inductive Numeral where
  | nan
  | infinite (negative : Bool)
  /-- The number `digits * 10 ^ exponent`, negated if `negative`. The writer used a point iff `pointed`. -/
  | finite (negative : Bool) (digits : Nat) (exponent : Int) (pointed : Bool)
deriving DecidableEq

/-! ## Digits -/

/-- Digits 0 to 9 and what follows them. -/
def takeDigits (cs : List Char) : List Char × List Char :=
  (cs.takeWhile Char.isDigit, cs.dropWhile Char.isDigit)

/-- The number that a list of digits names. -/
def ofDigits (ds : List Char) : Nat :=
  ds.foldl (fun n c => 10 * n + (c.toNat - '0'.toNat)) 0

/-- An optional sign; true for a minus. -/
def takeSign : List Char → Bool × List Char
  | '-' :: rest => (true, rest)
  | '+' :: rest => (false, rest)
  | rest => (false, rest)

/-- A whole number with an optional sign and nothing after it. -/
def readInt? (cs : List Char) : Option Int :=
  let (negative, rest) := takeSign cs
  if rest.isEmpty || !rest.all Char.isDigit then none
  else
    let n : Int := ofDigits rest
    some (if negative then -n else n)

/-! ## The longest number at the start of a text -/

/-- The rest after a word, whatever its case. -/
def afterWord? : List Char → List Char → Option (List Char)
  | [], rest => some rest
  | _ :: _, [] => none
  | w :: ws, c :: cs => if c.toLower = w then afterWord? ws cs else none

/-- An exponent, if a whole one follows. -/
def takeExponent (cs : List Char) : Int × List Char :=
  match cs with
  | e :: rest =>
    if e = 'e' ∨ e = 'E' then
      let (negative, unsigned) := takeSign rest
      let (ds, left) := takeDigits unsigned
      if ds.isEmpty then (0, cs)
      else (if negative then -(ofDigits ds : Int) else ofDigits ds, left)
    else (0, cs)
  | [] => (0, [])

/-- Digits with an optional point, of which at least one is there. -/
def takeMantissa (cs : List Char) : Option (List Char × List Char × Bool × List Char) :=
  let (whole, rest) := takeDigits cs
  match rest with
  | '.' :: after =>
    let (fraction, left) := takeDigits after
    if whole.isEmpty && fraction.isEmpty then none else some (whole, fraction, true, left)
  | _ => if whole.isEmpty then none else some (whole, [], false, rest)

/-- The longest number without a sign at the start of a text, and the rest of the text. -/
def scanUnsigned? (negative : Bool) (cs : List Char) : Option (Numeral × List Char) :=
  match afterWord? ['i', 'n', 'f', 'i', 'n', 'i', 't', 'y'] cs with
  | some rest => some (.infinite negative, rest)
  | none =>
    match afterWord? ['i', 'n', 'f'] cs with
    | some rest => some (.infinite negative, rest)
    | none =>
      match afterWord? ['n', 'a', 'n'] cs with
      | some rest => some (.nan, rest)
      | none =>
        match takeMantissa cs with
        | some (whole, fraction, pointed, rest) =>
          let (exponent, left) := takeExponent rest
          let numeral := .finite negative (ofDigits (whole ++ fraction))
            (exponent - fraction.length) pointed
          some (numeral, left)
        | none => none

/-- The longest number at the start of a text, and the rest of the text. -/
def scan? (cs : List Char) : Option (Numeral × List Char) :=
  let (negative, unsigned) := takeSign cs
  scanUnsigned? negative unsigned

/-- A number and nothing after it. -/
def read? (s : String) : Option Numeral :=
  match scan? s.toList with
  | some (numeral, []) => some numeral
  | _ => none

/-! ## The nearest REAL -/

/-- The exponent past which every number that is not zero is infinite, or below
its negative rounds to zero. -/
def farExponent : Int := 400

/-- The REAL nearest to a written number, a tie to the even one. -/
def Numeral.toReal : Numeral → Float
  | .nan => Real.nan
  | .infinite negative => if negative then -Real.infinity else Real.infinity
  | .finite negative digits exponent _ =>
    let magnitude := exponent + (toString digits).length
    let size :=
      if digits = 0 ∨ magnitude < -farExponent then 0.0
      else if farExponent < magnitude then Real.infinity
      else Float.ofScientific digits (exponent < 0) exponent.natAbs
    if negative then -size else size

def Numeral.isPointed : Numeral → Bool
  | .finite _ _ _ pointed => pointed
  | _ => false

end LineBasic.Decimal
