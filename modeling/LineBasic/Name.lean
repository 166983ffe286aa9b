-- The names of variables, labels, subroutines, functions and members. The
-- last character of a name fixes the type of what it stores, and an array
-- name ends in brackets that show its number of axes: `scores%[]`, `grid#[,]`.
-- Letter case never matters, so every look-up goes through the key of a name.

namespace LineBasic

/-- A name as the program spells it. -/
structure Name where
  chars : List Char
deriving DecidableEq, Inhabited

/-- The trailing mark of a name. -/
inductive Sigil where
  | integer
  | real
  | string
  | complex
  | none
deriving DecidableEq, Inhabited

namespace Sigil

def ofChar : Char → Sigil
  | '%' => .integer
  | '#' => .real
  | '$' => .string
  | '&' => .complex
  | _ => .none

def toChar? : Sigil → Option Char
  | .integer => some '%'
  | .real => some '#'
  | .string => some '$'
  | .complex => some '&'
  | .none => Option.none

end Sigil

namespace Name

def ofString (s : String) : Name := ⟨s.toList⟩

def text (n : Name) : String := String.ofList n.chars

instance : LT Name := ⟨fun a b => a.chars < b.chars⟩

instance : DecidableLT Name := fun a b => inferInstanceAs (Decidable (a.chars < b.chars))

instance : @Std.Asymm Name (· < ·) := ⟨fun a b (h : a.chars < b.chars) => List.lt_asymm h⟩

instance : @Trans Name Name Name (· < ·) (· < ·) (· < ·) :=
  ⟨fun {a b c} (hab : a.chars < b.chars) (hbc : b.chars < c.chars) => List.lt_trans hab hbc⟩

instance : @Std.Trichotomous Name (· < ·) :=
  ⟨fun a b (hab : ¬ a.chars < b.chars) (hba : ¬ b.chars < a.chars) =>
    congrArg Name.mk (List.le_antisymm hba hab)⟩

/-! ## Keys -/

/-- The form under which a name is looked up: only the letters A to Z change. -/
def key (n : Name) : Name := ⟨n.chars.map Char.toUpper⟩

/-- Two names that differ at most in the case of the letters A to Z. -/
def alike (a b : Name) : Bool := a.key = b.key

/-! ## The suffix of an array name -/

/-- An array name ends in `]` and has a `[` somewhere. -/
def isArray (n : Name) : Bool := n.chars.getLast? = some ']' && n.chars.contains '['

/-- What stands before and after the last `[`. -/
def cutAtLastBracket : List Char → Option (List Char × List Char)
  | [] => Option.none
  | c :: cs =>
    match cutAtLastBracket cs with
    | some (before, after) => some (c :: before, after)
    | Option.none => if c = '[' then some ([], cs) else Option.none

/-- Number of axes that the suffix names; zero for a name without a suffix. -/
def rank (n : Name) : Nat :=
  if n.isArray then
    match cutAtLastBracket n.chars with
    | some (_, after) => after.count ',' + 1
    | Option.none => 0
  else 0

/-- The name without its suffix. -/
def base (n : Name) : Name :=
  if n.isArray then
    match cutAtLastBracket n.chars with
    | some (before, _) => ⟨before⟩
    | Option.none => n
  else n

def sigil (n : Name) : Sigil :=
  match n.base.chars.getLast? with
  | some c => Sigil.ofChar c
  | Option.none => .none

/-- The name under which an array of the given rank is stored. A name that has
a suffix already keeps it. -/
def ofArray (n : Name) (rank : Nat) : Name :=
  if n.isArray then n
  else ⟨n.chars ++ '[' :: (List.replicate (rank - 1) ',' ++ [']'])⟩

end Name

end LineBasic
