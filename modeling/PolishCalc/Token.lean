import PolishCalc.Text

/-!
# Tokens

A token is a parenthesis or an atom: a number, the symbol of an operator, or
any other word, kept as it was written.

Two neighbouring characters of a text belong to one token unless one of them is
blank, the first is an opening parenthesis, or the second is a closing one. A
token is a longest run of characters that belong together. So an opening
parenthesis ends a token and a closing one starts a token: `2(` is one atom, and
so is `)2`.
-/

namespace PolishCalc

inductive Token where
  | openParen
  | closeParen
  | atom (text : String)
  deriving DecidableEq, Repr

namespace Token

open Text (isBlank)

/-- The text a token is written as. -/
def text : Token → String
  | openParen => "("
  | closeParen => ")"
  | atom text => text

/-- The token written as `text`: an atom, unless `text` is a single parenthesis. -/
def ofText (text : String) : Token :=
  if text = "(" then openParen else if text = ")" then closeParen else atom text

@[simp] theorem text_ofText (text : String) : (ofText text).text = text := by
  unfold ofText
  split
  · next h => exact h.symm
  · split
    · next h => exact h.symm
    · rfl

/-! ## Cutting a text into tokens -/

/-- Whether `c` and the character `d` after it belong to one token. -/
def glued (c d : Char) : Bool :=
  !isBlank c && c != '(' && !isBlank d && d != ')'

/-- The texts of the tokens: the runs of glued characters, without those of a blank. -/
def pieces (cs : List Char) : List (List Char) :=
  (cs.splitBy glued).filter fun piece => !piece.all isBlank

/-- The tokens of a text, in order. -/
def tokenize (s : String) : List Token :=
  (pieces s.toList).map fun piece => ofText (String.ofList piece)

end Token

end PolishCalc
