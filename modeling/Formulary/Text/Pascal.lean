import Formulary.Text.Case
import Formulary.Text.Digit
import Formulary.Text.Letter

/-!
# Pascal case

`binary-op` becomes `BinaryOp`: the words are joined and each starts with a capital.
-/

namespace Formulary.Text

/-- The characters that end a word. -/
def isSeparator (c : Char) : Bool := c == '-' || c == '_' || c == ' '

/-- The letters and digits of a text, the first one after a separator in upper case.  `start` tells
whether a word is about to start; all other characters are dropped and end no word. -/
def pascalChars : (start : Bool) → List Char → List Char
  | _, [] => []
  | start, c :: cs =>
    if isSeparator c then pascalChars true cs
    else if isLetter c || isDigit c then
      (if start then toUpper c else c) :: pascalChars false cs
    else pascalChars start cs

/-- The text in Pascal case (`ToPascal`). -/
def pascal (s : String) : String := String.ofList (pascalChars true s.toList)

end Formulary.Text
