import WorkflowEngine.Task.Basic

/-!
Runs of workflows with several steps. A run is written with its own fields and those of its trigger
side by side, and is read from objects only.
-/

namespace WorkflowEngine

/-- A run of a workflow with several steps. -/
structure Dag where
  id : DagId
  insertedAt : Instant
  tenantId : TenantId
  externalId : ExternalId
  workflowId : WorkflowId
  displayName : String
  input : Json
  additionalMetadata : List (String × String)
  /-- The number of steps, and so of tasks, of the run. -/
  totalTasks : Nat
  deriving Inhabited

namespace Dag

def fieldNames : List String :=
  ["id", "inserted_at", "tenant_id", "external_id", "workflow_id", "display_name", "input",
   "additional_metadata", "total_tasks"]

/-- Members of other names have to be readable as values. -/
def othersReadable (depth : Nat) : Document → Bool
  | .record members => members.all fun (name, d) =>
    match name with
    | some name => fieldNames.contains name || (Decoder.json (depth - 1) d).isSome
    | none => false
  | _ => false

instance : Codec Dag where
  encode r := .ofMembers [
    ("id", .int r.id),
    ("inserted_at", encode r.insertedAt),
    ("tenant_id", encode r.tenantId),
    ("external_id", encode r.externalId),
    ("workflow_id", encode r.workflowId),
    ("display_name", .str r.displayName),
    ("input", r.input),
    ("additional_metadata", .ofTexts r.additionalMetadata),
    ("total_tasks", .ofNat r.totalTasks)]
  decode depth d := do
    guard (othersReadable depth d)
    let fields ← Fields.of? fieldNames depth d
    return {
      id := ← fields.required "id" .int64
      insertedAt := ← fields.required "inserted_at" Codec.decode
      tenantId := ← fields.required "tenant_id" Codec.decode
      externalId := ← fields.required "external_id" Codec.decode
      workflowId := ← fields.required "workflow_id" Codec.decode
      displayName := ← fields.required "display_name" .text
      input := ← fields.required "input" .json
      additionalMetadata := ← fields.required "additional_metadata" .textMap
      totalTasks := ← fields.required "total_tasks" .nat64 }

end Dag

end WorkflowEngine
