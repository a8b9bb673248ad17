import Scoping.Command.Args

/-!
# Log formats

The format of a log is chosen by a word, in whatever case. A word that names no format means text.
-/

namespace Scoping

/-- How a log is written. -/
inductive LogFormat where
  | text | tree | json
  deriving DecidableEq, Repr, Inhabited

/-- The format that a word names. -/
def LogFormat.ofText (s : String) : LogFormat :=
  if Args.lower s == "tree" then .tree
  else if Args.lower s == "json" then .json
  else .text

end Scoping
