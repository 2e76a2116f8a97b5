import WorkflowEngine.Json.Printer
import WorkflowEngine.Text.Blank

/-!
Key expressions. An expression `input.a.b` names a member of the input of a task; the text there
groups tasks that compete for the same capacity.
-/

namespace WorkflowEngine.KeyExpression

/-- Why an expression has no key for an input. -/
inductive Failure where
  | notRooted
  | missing (field : String)
  | notScalar
  deriving DecidableEq, Repr

def Failure.reason : Failure → String
  | .notRooted => "must start with 'input.'"
  | .missing field => s!"field '{field}' not found"
  | .notScalar => "value is not a scalar"

def Failure.message (expression : String) (f : Failure) : String :=
  s!"could not evaluate concurrency key expression '{expression}': {f.reason}"

/-- Follows a path of member names. -/
def follow : Json → List String → Except Failure Json
  | value, [] => .ok value
  | value, name :: path =>
    match value.get? name with
    | some inner => follow inner path
    | none => .error (.missing name)

/-- Strings stand for themselves; numbers and truth values for their JSON text. -/
def scalarText : Json → Except Failure String
  | .str s => .ok s
  | .int n => .ok (Json.int n).text
  | .double x => .ok (Json.double x).text
  | .bool b => .ok (Json.bool b).text
  | _ => .error .notScalar

/-- The key of an input. -/
def evaluate (expression : String) (input : Json) : Except Failure String :=
  match Text.afterLead? "input." (Text.trim expression) with
  | none => .error .notRooted
  | some path => do scalarText (← follow input (Text.splitAt '.' path))

end WorkflowEngine.KeyExpression
