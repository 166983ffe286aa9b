-- The screen: what was printed, and a picture of 320 by 200 pixels. Printed
-- text goes either to a transcript with a cursor, or to a terminal that is
-- steered by escape codes. Shapes are painted in the foreground colour.
import LineBasic.Screen.Shape
import LineBasic.Screen.Style

namespace LineBasic

/-- Where printed text goes. -/
inductive Device where
  | transcript
  | terminal (style : Style)
deriving DecidableEq, Inhabited

structure Screen where
  text : String := ""
  pixels : Vector UInt32 (Screen.width * Screen.height) := Vector.replicate _ 0
  foreground : UInt32 := 0xFFFFFF
  background : UInt32 := 0
  row : Nat := 0
  column : Nat := 0
  device : Device := .transcript

namespace Screen

instance : Inhabited Screen := ⟨{}⟩

def onTerminal : Screen := { device := .terminal {} }

variable (s : Screen)

/-! ## Text -/

def print (text : String) : Screen :=
  match s.device with
  | .transcript => { s with text := s.text ++ text, column := s.column + text.length }
  | .terminal style => { s with text := s.text ++ style.paint text }

def newLine : Screen :=
  match s.device with
  | .transcript => { s with text := s.text ++ "\n", row := s.row + 1, column := 0 }
  | .terminal _ => { s with text := s.text ++ "\n" }

/-- A terminal counts rows and columns from one. -/
def moveTo (row column : Nat) : Screen :=
  match s.device with
  | .transcript => { s with row, column }
  | .terminal _ =>
    { s with text := s.text ++ Style.escape ++ toString (row + 1) ++ ";" ++ toString (column + 1) ++ "H" }

/-- Takes what was printed off the screen. -/
def takeText : String × Screen := (s.text, { s with text := "" })

/-! ## Colours -/

def setForeground (color : UInt32) : Screen :=
  match s.device with
  | .transcript => { s with foreground := color }
  | .terminal style =>
    { s with foreground := color, device := .terminal { style with foreground := some color } }

def setBackground (color : UInt32) : Screen :=
  match s.device with
  | .transcript => { s with background := color }
  | .terminal style =>
    { s with background := color, device := .terminal { style with background := some color } }

/-! ## The picture -/

/-- Fills the picture with the background and starts with no text. A terminal
is told to clear itself instead. -/
def clear : Screen :=
  let blank := { s with pixels := Vector.replicate _ s.background, row := 0, column := 0 }
  match s.device with
  | .transcript => { blank with text := "" }
  | .terminal _ => { blank with text := s.text ++ Style.escape ++ "2J" ++ Style.escape ++ "H" }

/-- Colours one point if it is on the screen. -/
def plot (color : UInt32) (pixels : Vector UInt32 (width * height)) (p : Point) :
    Vector UInt32 (width * height) :=
  if p.visible then pixels.setIfInBounds p.place color else pixels

def paint (points : List Point) : Screen :=
  { s with pixels := points.foldl (plot s.foreground) s.pixels }

/-- The colour of a pixel. -/
def pixel (x y : Nat) : UInt32 := (s.pixels[y * width + x]?).getD 0

end Screen

end LineBasic
