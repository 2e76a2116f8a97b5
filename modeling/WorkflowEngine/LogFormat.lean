/-!
How log output is formatted.
-/

namespace WorkflowEngine

inductive LogFormat where
  /-- For machines. -/
  | json
  /-- For people. -/
  | pretty
  deriving DecidableEq, Repr

namespace LogFormat

/-- The format of the given name, in any letter case; the readable one by default. -/
def ofName (s : String) : LogFormat := if s.map Char.toLower == "json" then json else pretty

def name : LogFormat → String
  | json => "Json"
  | pretty => "Pretty"

end LogFormat

end WorkflowEngine
