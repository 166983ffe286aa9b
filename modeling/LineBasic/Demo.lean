-- A short program that shows the language: squares, a countdown, a subroutine
-- with a result passed by reference, and an error that is caught.
import LineBasic.Program.Store

namespace LineBasic.Demo

def name (s : String) : Name := Name.ofString s

def var (s : String) : Expression := .variable (name s)

def print (es : List Expression) : Statement := .print (es.map .expression)

def letVar (s : String) (e : Expression) : Statement := .assign (.variable (name s)) e

def statements : List Statement :=
  [ .remark "Demonstration",
    print [.string "Squares"],
    .for (name "i%") (.integer 1) (.integer 5) none,
    print [var "i%", .string " squared is ", .binary .multiply (var "i%") (var "i%")],
    .next (some (name "i%")),
    letVar "n%" (.integer 3),
    .while (.binary .greater (var "n%") (.integer 0)),
    print [var "n%", .string "..."],
    .sleep (.real 0.25),
    letVar "n%" (.binary .subtract (var "n%") (.integer 1)),
    .wend,
    .sub (name "Hypot") [⟨name "a#", false⟩, ⟨name "b#", false⟩, ⟨name "result#", true⟩],
    letVar "result#" (.call (name "SQRT") [.binary .add
      (.binary .multiply (var "a#") (var "a#")) (.binary .multiply (var "b#") (var "b#"))]),
    .endSub,
    .call (name "Hypot") [.integer 3, .integer 4, var "h#"],
    print [.string "Hypotenuse ", var "h#"],
    .try,
    letVar "x%" (.binary .divide (.integer 1) (.integer 0)),
    .catch (some (name "e$")),
    print [.string "Caught: ", var "e$"],
    .endTry,
    .stop ]

def program : Program := .ofStatements statements

end LineBasic.Demo
