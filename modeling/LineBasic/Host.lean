-- Everything outside a program that it can reach: a screen, a sound device,
-- files, the clock, and a window whose views it may ask for.
import LineBasic.Clock
import LineBasic.Files
import LineBasic.Screen.Basic
import LineBasic.Sound

namespace LineBasic

/-- `views` lists the views that were asked for, unless nobody listens. -/
structure Host where
  screen : Screen := {}
  sound : List SoundRequest := []
  files : Files := {}
  views : Option (List String) := none
  clock : Clock := {}
deriving Inhabited

namespace Host

def record (h : Host) (request : SoundRequest) : Host := { h with sound := h.sound ++ [request] }

def requestView (h : Host) (target : String) : Host :=
  { h with views := h.views.map (· ++ [target]) }

end Host

end LineBasic
