/-!
# Blank characters and lines

A character is blank if it has the Unicode property White_Space. Blank
characters separate words, and `trim` removes them from both ends of a text.

A line ends at a line feed, and a carriage return directly before that line
feed belongs to the line's end. What follows the last line feed is a line too,
unless it is empty.
-/

namespace PolishCalc.Text

/-! ## Blank characters -/

/-- The code points with the property White_Space, as ranges with both ends included. -/
def blankRanges : List (Nat × Nat) :=
  [(0x9, 0xD), (0x20, 0x20), (0x85, 0x85), (0xA0, 0xA0), (0x1680, 0x1680), (0x2000, 0x200A),
    (0x2028, 0x2029), (0x202F, 0x202F), (0x205F, 0x205F), (0x3000, 0x3000)]

def isBlank (c : Char) : Bool :=
  blankRanges.any fun range => range.1 ≤ c.toNat && c.toNat ≤ range.2

/-- The text without the blank characters at either end. -/
def trim (s : String) : String :=
  String.ofList ((s.toList.dropWhile isBlank).reverse.dropWhile isBlank).reverse

/-! ## Lines -/

/-- The lines of a text given by its characters. -/
def splitLines : List Char → List (List Char)
  | [] => []
  | '\n' :: rest => [] :: splitLines rest
  | '\r' :: '\n' :: rest => [] :: splitLines rest
  | c :: rest =>
    match splitLines rest with
    | [] => [[c]]
    | line :: more => (c :: line) :: more

def lines (s : String) : List String :=
  (splitLines s.toList).map String.ofList

end PolishCalc.Text
