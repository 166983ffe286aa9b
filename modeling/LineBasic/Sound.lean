-- What a program asks the sound device to do, in the order it was asked.
import LineBasic.Decimal.Shortest

namespace LineBasic

inductive SoundRequest where
  | tempo (bpm : Float)
  | volume (level : Nat)
  | voice (index : Nat)
  | play (channel : Nat) (notes : String)
  | stop
deriving Inhabited

namespace SoundRequest

def render : SoundRequest → String
  | .tempo bpm => "TEMPO " ++ Decimal.plain bpm
  | .volume level => "VOLUME " ++ toString level
  | .voice index => "VOICE " ++ toString index
  | .play channel notes => "PLAY " ++ toString channel ++ " " ++ notes
  | .stop => "STOP"

end SoundRequest

end LineBasic
