-- Text in colour on a terminal. Colours have eight bits each of red, green
-- and blue, and a style without any colour writes the bare text.

namespace LineBasic

structure Style where
  foreground : Option UInt32 := none
  background : Option UInt32 := none
  bold : Bool := false
deriving DecidableEq, Inhabited

namespace Style

def escape : String := "\x1b["

/-- Red, green and blue of a colour. -/
def channels (color : UInt32) : String :=
  let n := color.toNat
  toString (n / 65536 % 256) ++ ";" ++ toString (n / 256 % 256) ++ ";" ++ toString (n % 256)

def codes (s : Style) : List String :=
  (if s.bold then ["1"] else []) ++
    (s.background.map fun c => "48;2;" ++ channels c).toList ++
    (s.foreground.map fun c => "38;2;" ++ channels c).toList

/-- The text between the codes of the style and the code that ends it. -/
def paint (s : Style) (text : String) : String :=
  match s.codes with
  | [] => text
  | codes => escape ++ ";".intercalate codes ++ "m" ++ text ++ escape ++ "0m"

end Style

end LineBasic
