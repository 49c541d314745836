import PolishCalc.Program

/-!
# The command line

Reads lines from standard input and prints the answers as they come.
-/

namespace PolishCalc.Main

/-- Answers the lines of `input` until it ends or a line ends the session. -/
partial def serve (session : Session) (input output : IO.FS.Stream) : IO Unit := do
  match Text.lines (← input.getLine) with
  | [] => return
  | line :: _ =>
    let reply := session.reply line
    output.putStr reply.output
    output.flush
    unless reply = .exit do serve session input output

end PolishCalc.Main

open PolishCalc in
def main (arguments : List String) : IO UInt32 := do
  match Options.ofArguments arguments with
  | .error refusal => return refusal.exitCode
  | .ok options =>
    let output ← IO.getStdout
    output.putStr (Program.greeting options)
    output.flush
    Main.serve (Program.session options) (← IO.getStdin) output
    return 0
