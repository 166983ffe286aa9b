-- What each statement does.
import LineBasic.Session.Assign
import LineBasic.Session.Branch
import LineBasic.Session.Device
import LineBasic.Session.Jump
import LineBasic.Session.Loop

namespace LineBasic.Run

/-- Executes one statement and tells how the program goes on. -/
def execute : Statement → Run Flow
  | .remark _ | .label _ => return .next
  | .assign target e => letStatement target e
  | .localVariable name initial => localStatement name initial
  | .dim name axes => dimStatement name axes
  | .swap a b => swapStatement a b
  | .push name e => pushStatement name e
  | .pop name target => popStatement name target
  | .shift name target => shiftStatement name target
  | .unshift name e => unshiftStatement name e
  | .print items => printStatement items
  | .if e => ifStatement e false
  | .unless e => ifStatement e true
  | .elseIf e => elseIfStatement e
  | .else => elseStatement
  | .endIf | .endUnless => endIfStatement
  | .while e => whileStatement e false
  | .until e => whileStatement e true
  | .wend => wendStatement false
  | .uend => wendStatement true
  | .do c => doStatement c
  | .loop c => loopStatement c
  | .for name start limit step => forStatement name start limit step
  | .next name => nextStatement name
  | .select e => selectStatement e
  | .case tests => caseStatement tests
  | .endSelect => endSelectStatement
  | .try => tryStatement
  | .catch _ => catchStatement
  | .finally => finallyStatement
  | .endTry => endTryStatement
  | .throw e => throwStatement e
  | .exit kind name => exitStatement kind name
  | .continue kind name => continueStatement kind name
  | .goto label => gotoStatement label
  | .gosub label => gosubStatement label
  | .return | .endSub => return .return
  | .sub _ _ => subStatement
  | .call name args => callStatement name args
  | .stop => return .stop
  | .randomize seed => randomizeStatement seed
  | .sleep e => sleepStatement e
  | .view e => viewStatement e
  | .color foreground background => colorStatement foreground background
  | .locate row column => locateStatement row column
  | .cls => clsStatement
  | .draw shape args filled => drawStatement shape args filled
  | .tempo e => tempoStatement e
  | .volume e => volumeStatement e
  | .voice e => voiceStatement e
  | .play voice notes => playStatement voice notes
  | .playStop => playStopStatement
  | .openFile path mode handle => openStatement path mode handle
  | .closeFile handle => closeStatement handle
  | .readBytes handle amount target => readStatement handle amount target
  | .writeBytes handle data => writeStatement handle data
  | .seek handle position => seekStatement handle position
  | .loadFile path target => loadStatement path target
  | .saveFile path data => saveStatement path data

end LineBasic.Run
