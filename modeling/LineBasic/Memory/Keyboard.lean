-- The keys that are held down and the key that was pressed last.
import LineBasic.Name

namespace LineBasic

structure Keyboard where
  down : List Name := []
  last : String := ""
deriving DecidableEq, Inhabited

namespace Keyboard

/-- Letter case does not tell keys apart. -/
def keyOf (key : String) : Name := (Name.ofString key).key

def press (k : Keyboard) (key : String) : Keyboard :=
  { down := if k.down.contains (keyOf key) then k.down else keyOf key :: k.down, last := key }

def release (k : Keyboard) (key : String) : Keyboard :=
  { k with down := k.down.filter (· ≠ keyOf key) }

def isDown (k : Keyboard) (key : String) : Bool := k.down.contains (keyOf key)

end Keyboard

end LineBasic
