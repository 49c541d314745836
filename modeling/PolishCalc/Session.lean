import PolishCalc.Calculation
import PolishCalc.Binary32.Decimal
import PolishCalc.Text

/-!
# Sessions

A session answers lines of text, each on its own. Blank characters around a
line do not count. An empty line has no answer, `exit` and `quit` end the
session, and every other line is an expression, answered by its value or by
the reason why it has none.
-/

namespace PolishCalc

structure Session where
  /-- How many forms may be nested. -/
  maxDepth : UInt64 := Expr.defaultMaxDepth
  /-- Whether syntax errors are reported as they are. -/
  strict : Bool := false
  deriving DecidableEq, Repr

/-- The answer to a line. -/
inductive Reply where
  | exit
  | blank
  | print (text : String)
  deriving DecidableEq, Repr

/-- What the answer adds to the output. -/
def Reply.output : Reply → String
  | exit => ""
  | blank => ""
  | print text => text ++ "\n"

namespace Session

/-- The value of an expression under the session's settings. -/
def calculate (session : Session) (text : String) : Except Failure Binary32 :=
  if session.strict then do
    let e ← (Expr.read session.maxDepth text).mapError .reading
    (e.evaluateFor session.maxDepth).mapError .evaluating
  else (calculateFor session.maxDepth text).mapError .evaluating

/-- The line that reports a value or a failure. -/
def report : Except Failure Binary32 → String
  | .ok value => "Result: " ++ value.text
  | .error failure => failure.headline

def reply (session : Session) (line : String) : Reply :=
  let text := Text.trim line
  if text = "" then .blank
  else if text = "exit" ∨ text = "quit" then .exit
  else .print (report (session.calculate text))

/-- The answers to lines in order, up to the first line that ends the session. -/
def replies (session : Session) (lines : List String) : List Reply :=
  (lines.map session.reply).takeWhile (· ≠ .exit)

/-- The output for lines in order. -/
def transcript (session : Session) (lines : List String) : String :=
  String.join ((session.replies lines).map Reply.output)

end Session

end PolishCalc
