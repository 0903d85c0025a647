import Formulary.Ebnf.Checker
import Formulary.Text.Distance
import Formulary.TextField

/-!
# What commands work with

Commands do not care how names are compared, productions verified and lines edited.  They are given
what does it.
-/

namespace Formulary.Command

structure Toolkit where
  similar : Text.Similarity
  productions : Ebnf.Package
  field : TextField

/-- The tools of the program. -/
def Toolkit.own : Toolkit := ⟨Text.similar, Ebnf.checker, .line⟩

end Formulary.Command
