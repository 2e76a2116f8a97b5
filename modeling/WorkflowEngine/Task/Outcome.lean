import WorkflowEngine.Task.Basic
import WorkflowEngine.Text.Blank

/-!
Announcements of how tasks ended. Each has a key, made of the outcome and the external id of the
task, and a body. Steps that wait for others listen to these keys.
-/

namespace WorkflowEngine

/-- How a task ended. A skipped task counts as completed. -/
inductive Outcome where
  | completed
  | failed
  | cancelled
  deriving DecidableEq, Repr

namespace Outcome

def all : List Outcome := [completed, failed, cancelled]

/-- What the keys of the outcome begin with. -/
def lead : Outcome → String
  | completed => "task.completed."
  | failed => "task.failed."
  | cancelled => "task.cancelled."

def key (o : Outcome) (task : ExternalId) : String := o.lead ++ task.text

/-- The outcome and the task that a key announces. -/
def ofKey? (key : String) : Option (Outcome × ExternalId) :=
  all.findSome? fun o => do
    let rest ← Text.afterLead? o.lead key
    return (o, ← Identifier.parse? rest)

end Outcome

/-- The body of the announcement that a task completed. -/
structure CompletedData where
  stepReadableId : String
  output : Json

namespace CompletedData

/-- The body for a task that was skipped. -/
def skipped (step : String) : CompletedData := ⟨step, .ofMembers [("skipped", .bool true)]⟩

def toJson (d : CompletedData) : Json :=
  .ofMembers [("step_readable_id", .str d.stepReadableId), ("output", d.output)]

end CompletedData

/-- The body of the announcement that a task failed or was cancelled. -/
structure FailedData where
  stepReadableId : String
  error : String
  deriving DecidableEq, Repr

namespace FailedData

/-- The body for a task that was cancelled. -/
def cancelled (step : String) : FailedData := ⟨step, "task was cancelled"⟩

def toJson (d : FailedData) : Json :=
  .ofMembers [("step_readable_id", .str d.stepReadableId), ("error", .str d.error)]

end FailedData

end WorkflowEngine
