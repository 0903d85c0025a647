import Formulary.Arith.Profile

/-!
# Settings of a profile

What a file says about a profile.  A setting that is left out takes the value of the standard
profile; so do levels that are empty.
-/

namespace Formulary.Arith

structure Settings where
  levels : List (List String)
  unary : Option (List String)
  functions : Option (List String)
  maxDepth : Int
  constants : Option (Bindings Float)

namespace Settings

/-- Nothing is set. -/
def unset : Settings := ⟨[], none, none, 0, none⟩

/-- The profile with these settings. -/
def profile (s : Settings) : Profile where
  levels := if s.levels.isEmpty then Profile.standard.levels else s.levels
  unary := s.unary.getD Profile.standard.unary
  functions := s.functions.getD Profile.standard.functions
  maxDepth := s.maxDepth
  constants := s.constants.getD Profile.standard.constants

end Settings

end Formulary.Arith
