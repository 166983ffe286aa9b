-- A text in capitals or in small letters. Every character is replaced on its
-- own but one: a capital sigma that ends a word has a small letter of its own.
import LineBasic.Text.CasePairs
import LineBasic.Text.Cased

namespace LineBasic.Text

/-- The characters that a table gives for a character; itself if the table is silent. -/
def mapWith (runs : List CaseRun) (words : List (Nat × List Nat)) (c : Char) : List Char :=
  match words.find? (·.1 = c.toNat) with
  | some (_, codes) => codes.map Char.ofNat
  | none =>
    match runs.find? (·.covers c.toNat) with
    | some r => [Char.ofNat (c.toNat + r.shift).toNat]
    | none => [c]

def upperChar (c : Char) : List Char :=
  if c.toNat < 128 then [c.toUpper] else mapWith upperRuns upperWords c

def lowerChar (c : Char) : List Char :=
  if c.toNat < 128 then [c.toLower] else mapWith lowerRuns lowerWords c

def upper (s : String) : String := String.ofList (s.toList.flatMap upperChar)

/-- A letter is next, past all that case ignores. -/
def meetsLetter (cs : List Char) : Bool :=
  match cs.dropWhile isCaseIgnored with
  | c :: _ => isCased c
  | [] => false

/-- Small letters for the characters after those of `before`, which are listed
from the nearest to the farthest. A sigma that follows a letter and is not
followed by one ends its word. -/
def lowerFrom : List Char → List Char → List Char
  | _, [] => []
  | before, c :: rest =>
    let small :=
      if c = 'Σ' then [if meetsLetter before && !meetsLetter rest then 'ς' else 'σ']
      else lowerChar c
    small ++ lowerFrom (c :: before) rest

def lower (s : String) : String := String.ofList (lowerFrom [] s.toList)

end LineBasic.Text
