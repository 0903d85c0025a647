/-!
# Padding
-/

namespace Formulary.Text

/-- The text with blanks behind it up to a width. -/
def padRight (width : Nat) (s : String) : String :=
  s ++ String.ofList (List.replicate (width - s.length) ' ')

end Formulary.Text
