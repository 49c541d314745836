import PolishCalc.Text
import PolishCalc.Token
import PolishCalc.Binary32.Basic
import PolishCalc.Binary32.Arithmetic
import PolishCalc.Operator
import PolishCalc.Decimal
import PolishCalc.Binary32.Decimal
import PolishCalc.Expr.Basic
import PolishCalc.Expr.Reading
import PolishCalc.Expr.Evaluation
import PolishCalc.Calculation
import PolishCalc.Expr.Tokens
import PolishCalc.Session
import PolishCalc.Options
import PolishCalc.Program
import PolishCalc.Main
import PolishCalc.Proofs.Except
import PolishCalc.Proofs.Token.Cut
import PolishCalc.Proofs.Token.Clean
import PolishCalc.Proofs.Token.Scanner
import PolishCalc.Proofs.Token.Spacing
import PolishCalc.Proofs.Token.Merge
import PolishCalc.Proofs.Token.Spelling
import PolishCalc.Proofs.Token.Trim
import PolishCalc.Proofs.Expr.Reach
import PolishCalc.Proofs.Reading.Grammar
import PolishCalc.Proofs.Reading.Refusal
import PolishCalc.Proofs.Reading.Nesting
import PolishCalc.Proofs.Reading.Descent
import PolishCalc.Proofs.Reading.Cursor
import PolishCalc.Proofs.Reading.Calls
import PolishCalc.Proofs.Reading.Decided
import PolishCalc.Proofs.Reading.Rendering
import PolishCalc.Proofs.Reading.NormalForm
import PolishCalc.Proofs.Binary32.Magnitude
import PolishCalc.Proofs.Binary32.Nearest
import PolishCalc.Proofs.Binary32.Decimal
import PolishCalc.Proofs.Binary32.Exact
import PolishCalc.Proofs.Decimal.Written
import PolishCalc.Proofs.Decimal.Numeral
import PolishCalc.Proofs.Decimal.Spelling
import PolishCalc.Proofs.Operator.Absorbing
import PolishCalc.Proofs.Operator.Integers
import PolishCalc.Proofs.Evaluation.Value
import PolishCalc.Proofs.Evaluation.Arithmetic
import PolishCalc.Proofs.Evaluation.FirstFault
import PolishCalc.Proofs.Evaluation.Limit
import PolishCalc.Proofs.Evaluation.LargerLimit
import PolishCalc.Proofs.Evaluation.Folding
import PolishCalc.Proofs.Evaluation.Levels
import PolishCalc.Proofs.Evaluation.Inside
import PolishCalc.Proofs.Evaluation.Absorbing
import PolishCalc.Proofs.Evaluation.Literal
import PolishCalc.Proofs.Calculation.Arithmetic
import PolishCalc.Proofs.Calculation.Outcome
import PolishCalc.Proofs.Calculation.Depth
import PolishCalc.Proofs.Calculation.Context
import PolishCalc.Proofs.Calculation.Placeholder
import PolishCalc.Proofs.Calculation.Recursion
import PolishCalc.Proofs.Text
import PolishCalc.Proofs.Session.Reply
import PolishCalc.Proofs.Session.Agreement
import PolishCalc.Proofs.Binary32.Text
import PolishCalc.Proofs.Session.SingleLine
import PolishCalc.Proofs.Session.ReadBack
import PolishCalc.Proofs.Session.Transcript
import PolishCalc.Proofs.Program.Output
