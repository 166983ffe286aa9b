-- Bytes read as text. Bytes that spell no character become U+FFFD, one for
-- each longest start of a character that the bytes break off.

namespace LineBasic.Text

/-- The character that stands for what cannot be read. -/
def unreadable : Char := Char.ofNat 0xFFFD

/-- How many bytes follow a first byte, the least and the greatest second byte,
and the bits of the character that the first byte holds. -/
def firstByte? (b : Nat) : Option (Nat × Nat × Nat × Nat) :=
  if 0xC2 ≤ b && b ≤ 0xDF then some (1, 0x80, 0xBF, b - 0xC0)
  else if b = 0xE0 then some (2, 0xA0, 0xBF, 0)
  else if (0xE1 ≤ b && b ≤ 0xEC) || b = 0xEE || b = 0xEF then some (2, 0x80, 0xBF, b - 0xE0)
  else if b = 0xED then some (2, 0x80, 0x9F, b - 0xE0)
  else if b = 0xF0 then some (3, 0x90, 0xBF, 0)
  else if 0xF1 ≤ b && b ≤ 0xF3 then some (3, 0x80, 0xBF, b - 0xF0)
  else if b = 0xF4 then some (3, 0x80, 0x8F, b - 0xF0)
  else none

/-- A character that is still being read: how many bytes are wanted, the range
of the next one, and the bits so far. -/
structure Partial where
  wanted : Nat
  low : Nat
  high : Nat
  bits : Nat

/-- Starts a new character with a byte. -/
def begin (b : Nat) : List Char × Option Partial :=
  if b < 0x80 then ([Char.ofNat b], none)
  else
    match firstByte? b with
    | some (wanted, low, high, bits) => ([], some ⟨wanted, low, high, bits⟩)
    | none => ([unreadable], none)

/-- Takes one more byte. A byte that cannot continue a character breaks it off
and starts the next one. -/
def feed (pending : Option Partial) (b : Nat) : List Char × Option Partial :=
  match pending with
  | none => begin b
  | some p =>
    if p.low ≤ b && b ≤ p.high then
      let bits := 64 * p.bits + (b - 0x80)
      if p.wanted = 1 then ([Char.ofNat bits], none)
      else ([], some ⟨p.wanted - 1, 0x80, 0xBF, bits⟩)
    else
      let (cs, next) := begin b
      (unreadable :: cs, next)

/-- All characters of a list of bytes, after a character that is still being
read; the last ones come first in `done`. -/
def decodeFrom (done : List Char) (pending : Option Partial) : List UInt8 → List Char
  | [] => (if pending.isSome then unreadable :: done else done).reverse
  | b :: rest =>
    let (cs, next) := feed pending b.toNat
    decodeFrom (cs.reverse ++ done) next rest

/-- Reads bytes as text, whatever they are. Bytes that spell a text give that text. -/
def decode (bytes : ByteArray) : String :=
  match String.fromUTF8? bytes with
  | some s => s
  | none => String.ofList (decodeFrom [] none bytes.toList)

end LineBasic.Text
