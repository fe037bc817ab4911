import SnesMusic.Text.Glob

/-!
# Filters

A choice of names by glob patterns.
-/
namespace SnesMusic.Tool

/-- Patterns of names that are wanted and of names that are not. -/
structure Filters where
  includes : List String := []
  excludes : List String := []
  deriving DecidableEq, Repr

namespace Filters

def isEmpty (f : Filters) : Bool := f.includes.isEmpty && f.excludes.isEmpty

/-- Whether a name is chosen: some pattern includes it, unless there are none, and no pattern
excludes it. -/
def accepts (f : Filters) (name : String) : Bool :=
  (f.includes.isEmpty || f.includes.any (Glob.accepts · name)) &&
    !f.excludes.any (Glob.accepts · name)

end Filters
end SnesMusic.Tool
