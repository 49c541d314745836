import PolishCalc.Decimal
import PolishCalc.Expr.Reading

/-!
# Command line options

The options are `-q` or `--quiet`, `-s` or `--strict`, `--max-depth` with a
value, `-h` or `--help`, and `-V` or `--version`. Short options may be joined
(`-qs`), a value is the next argument or follows `=`, and no argument is
anything but an option or its value; `--` ends the options. The arguments are
taken from left to right and the first fault is reported.

A value that is an argument of its own waits: it is looked at when the next
known option takes effect or the arguments end. So an unknown argument after it
is reported first. A waiting `--max-depth` takes any next argument that does
not look like an option.
-/

namespace PolishCalc

structure Options where
  quiet : Bool := false
  strict : Bool := false
  maxDepth : UInt64 := Expr.defaultMaxDepth
  deriving DecidableEq, Repr

/-- Why the arguments give no options. -/
inductive Options.Refusal where
  /-- An unknown option, or an argument that is no option's value. -/
  | unknownArgument
  /-- An option for the second time. -/
  | repeatedOption
  /-- A value for an option that takes none. -/
  | unexpectedValue
  /-- No value for an option that takes one. -/
  | missingValue
  /-- A value that is not a count. -/
  | malformedValue
  | helpRequested
  | versionRequested
  deriving DecidableEq, Repr

namespace Options

/-- The exit code of a program that was started with such arguments. -/
def Refusal.exitCode : Refusal → UInt32
  | helpRequested => 0
  | versionRequested => 0
  | _ => 2

/-! ## Values -/

/-- The count that a text spells: digits, after a `+` if there is one, in the range of 64 bits. -/
def count? (text : String) : Option UInt64 :=
  let digits :=
    match text.toList with
    | '+' :: rest => rest
    | cs => cs
  let n := Decimal.ofDigits digits
  if digits ≠ [] ∧ digits.all Char.isDigit ∧ n < UInt64.size then some (UInt64.ofNat n)
  else none

/-! ## Arguments -/

/-- An argument by its form. -/
inductive Argument where
  /-- Two dashes alone. -/
  | endOfOptions
  /-- Two dashes and a name, and a value if there is an `=`. -/
  | long (name : String) (value : Option String)
  /-- One dash and at least one letter. -/
  | short (letters : List Char)
  /-- Any other text, a lone dash included. -/
  | plain (text : String)
  deriving DecidableEq, Repr

def Argument.ofString (text : String) : Argument :=
  match text.toList with
  | ['-', '-'] => endOfOptions
  | '-' :: '-' :: body =>
    match body.dropWhile (· ≠ '=') with
    | [] => long (String.ofList body) none
    | _ :: value => long (String.ofList (body.takeWhile (· ≠ '='))) (some (String.ofList value))
  | '-' :: c :: letters => short (c :: letters)
  | _ => plain text

/-- The options that take no value. -/
inductive Flag where
  | quiet
  | strict
  | help
  | version
  deriving DecidableEq, Repr

def Flag.ofName? : String → Option Flag
  | "quiet" => some quiet
  | "strict" => some strict
  | "help" => some help
  | "version" => some version
  | _ => none

def Flag.ofLetter? : Char → Option Flag
  | 'q' => some quiet
  | 's' => some strict
  | 'h' => some help
  | 'V' => some version
  | _ => none

/-! ## Taking the arguments -/

/-- What a `--max-depth` without `=` is waiting for. -/
inductive Waiting where
  | nothing
  /-- Its value has not come yet. -/
  | value
  /-- Its value has come and is to be looked at. -/
  | check (value : String)
  deriving DecidableEq, Repr

/-- The options met so far. -/
structure Seen where
  quiet : Bool := false
  strict : Bool := false
  maxDepth : Option UInt64 := none
  waiting : Waiting := .nothing
  deriving DecidableEq, Repr

namespace Seen

def setMaxDepth (seen : Seen) (value : String) : Except Refusal Seen :=
  match seen.maxDepth, count? value with
  | some _, _ => .error .repeatedOption
  | none, none => .error .malformedValue
  | none, some maxDepth => .ok { seen with maxDepth := some maxDepth }

/-- Looks at the waiting value, if any. -/
def settle (seen : Seen) : Except Refusal Seen :=
  match seen.waiting with
  | .nothing => .ok seen
  | .value => .error .missingValue
  | .check value => { seen with waiting := .nothing }.setMaxDepth value

def takeFlag (seen : Seen) (flag : Flag) : Except Refusal Seen := do
  let seen ← seen.settle
  match flag with
  | .quiet => if seen.quiet then .error .repeatedOption else .ok { seen with quiet := true }
  | .strict => if seen.strict then .error .repeatedOption else .ok { seen with strict := true }
  | .help => .error .helpRequested
  | .version => .error .versionRequested

def takeLetter (seen : Seen) (letter : Char) : Except Refusal Seen :=
  match Flag.ofLetter? letter with
  | some flag => seen.takeFlag flag
  | none => .error .unknownArgument

def takeLong (seen : Seen) (name : String) (value : Option String) : Except Refusal Seen :=
  if name = "max-depth" then do
    let seen ← seen.settle
    match value with
    | some value => seen.setMaxDepth value
    | none => .ok { seen with waiting := .value }
  else
    match Flag.ofName? name, value with
    | none, _ => .error .unknownArgument
    | some _, some _ => .error .unexpectedValue
    | some flag, none => seen.takeFlag flag

def takeAll (seen : Seen) : List String → Except Refusal Seen
  | [] => seen.settle
  | argument :: rest =>
    match Argument.ofString argument with
    | .endOfOptions => if rest = [] then seen.settle else .error .unknownArgument
    | .long name value => do (← seen.takeLong name value).takeAll rest
    | .short letters => do (← letters.foldlM takeLetter seen).takeAll rest
    | .plain text =>
      if seen.waiting = .value then { seen with waiting := .check text }.takeAll rest
      else .error .unknownArgument

end Seen

/-- The options that the arguments of a program give. -/
def ofArguments (arguments : List String) : Except Refusal Options := do
  let seen ← Seen.takeAll {} arguments
  return {
    quiet := seen.quiet
    strict := seen.strict
    maxDepth := seen.maxDepth.getD Expr.defaultMaxDepth }

end Options

end PolishCalc
