import PolishCalc.Options
import PolishCalc.Session
import PolishCalc.Text

/-!
# The whole program

The program takes its options, prints a banner unless it is to be quiet, and
answers the lines of its input until one of them ends the session. Arguments
that give no options end it at once; the help, the version or the complaint that
they ask for is not part of the output here. Neither are logs, nor what a
terminal adds: its prompt, the editing of a line and the history of lines.
-/

namespace PolishCalc.Program

def banner : String :=
  "Expression parser, exit with: exit || quit\n" ++
  "Valid expression examples:\n" ++
  "\t (+ 10 10 10)\n" ++
  "\t (+ 10 (* 5 2) (- 8 3) (/ 20 4))\n"

/-- What is printed before the first line is read. -/
def greeting (options : Options) : String :=
  if options.quiet then "" else banner

def session (options : Options) : Session :=
  { maxDepth := options.maxDepth, strict := options.strict }

/-- What a run of the program leaves behind. -/
structure Outcome where
  output : String
  exitCode : UInt32
  deriving DecidableEq, Repr

/-- The output for a whole input. -/
def output (options : Options) (input : String) : String :=
  greeting options ++ (session options).transcript (Text.lines input)

def run (arguments : List String) (input : String) : Outcome :=
  match Options.ofArguments arguments with
  | .ok options => { output := output options input, exitCode := 0 }
  | .error refusal => { output := "", exitCode := refusal.exitCode }

end PolishCalc.Program
