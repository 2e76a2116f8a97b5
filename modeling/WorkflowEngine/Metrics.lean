import WorkflowEngine.Bus.Message
import WorkflowEngine.ReadModel.Partition
import WorkflowEngine.Workflow.Definition

/-!
Counters and histograms of what the engine does. A measurement of a count of zero leaves no trace.
-/

namespace WorkflowEngine

inductive Sweep where
  | timeout
  | reassign
  deriving DecidableEq, Repr

def Sweep.name : Sweep → String
  | .timeout => "timeout"
  | .reassign => "reassign"

/-- What a counter counts. -/
inductive Counter where
  | messagesHandled (kind : MessageKind) (ok : Bool)
  | transitions (toState : TaskState)
  | decisions (policy : Policy) (decision : String)
  | saturated (table : Table)
  | dedupHits
  | partitions (table action : String)
  | swept (sweep : Sweep)
  | sendFailures (cause : String)
  deriving DecidableEq, Repr

namespace Counter

def name : Counter → String
  | messagesHandled .. => "kiln_flow_messages_handled_total"
  | transitions _ => "kiln_flow_task_transitions_total"
  | decisions .. => "kiln_flow_concurrency_decisions_total"
  | saturated _ => "kiln_flow_reconcile_saturated_total"
  | dedupHits => "kiln_flow_dedup_hits_total"
  | partitions .. => "kiln_flow_partitions_total"
  | swept _ => "kiln_flow_sweep_tasks_total"
  | sendFailures _ => "kiln_flow_send_failures_total"

/-- The labels of a counter, in the order of their names. -/
def labels : Counter → List (String × String)
  | messagesHandled kind ok => [("kind", kind.name), ("result", if ok then "ok" else "error")]
  | transitions toState => [("to_state", toState.name)]
  | decisions policy decision => [("decision", decision), ("strategy", policy.name)]
  | saturated table => [("table", table.name)]
  | dedupHits => []
  | partitions table action => [("action", action), ("table", table)]
  | swept sweep => [("sweep", sweep.name)]
  | sendFailures cause => [("kind", cause)]

end Counter

structure Metrics where
  counts : List (Counter × Nat) := []
  /-- How often strategies of each policy were evaluated. -/
  evaluations : List (Policy × Nat) := []
  /-- The sizes of the batches folded for each table. -/
  batches : List (Table × Nat) := []
  deriving DecidableEq, Repr

namespace Metrics

def bump {κ : Type} [DecidableEq κ] (key : κ) (n : Nat) : List (κ × Nat) → List (κ × Nat)
  | [] => [(key, n)]
  | (k, m) :: rest => if k = key then (k, m + n) :: rest else (k, m) :: bump key n rest

def add (m : Metrics) (c : Counter) (n : Nat) : Metrics :=
  if n = 0 then m else { m with counts := bump c n m.counts }

def addAll (m : Metrics) (cs : List (Counter × Nat)) : Metrics :=
  cs.foldl (fun m c => m.add c.1 c.2) m

def count (m : Metrics) (c : Counter) : Nat := ((m.counts.find? (·.1 == c)).map (·.2)).getD 0

def addEvaluation (m : Metrics) (p : Policy) : Metrics :=
  { m with evaluations := bump p 1 m.evaluations }

/-- Notes the size of a folded batch, and whether it reached the limit. -/
def addBatch (m : Metrics) (t : Table) (size : Nat) (saturated : Bool) : Metrics :=
  { m with batches := m.batches ++ [(t, size)] }.add (.saturated t) (if saturated then 1 else 0)

/-- A name with its labels. -/
def seriesText (name : String) (labels : List (String × String)) : String :=
  name ++ "\x7b" ++ ",".intercalate (labels.map fun l => l.1 ++ "=" ++ l.2) ++ "\x7d"

def evaluationsName : String := "kiln_flow_concurrency_evaluation_seconds"

def batchesName : String := "kiln_flow_reconcile_batch_size"

/-- The sizes of the batches of a table, ascending. -/
def batchSizes (m : Metrics) (t : Table) : List Nat :=
  ((m.batches.filter (·.1 == t)).map (·.2)).mergeSort (fun a b => decide (a ≤ b))

/-- The written form of everything that was measured. -/
def toJson (m : Metrics) : Json :=
  .ofMembers (
    m.counts.map (fun (c, n) => (seriesText c.name c.labels, .ofNat n)) ++
    m.evaluations.map (fun (p, n) =>
      (seriesText evaluationsName [("strategy", p.name)], .ofMembers [("samples", .ofNat n)])) ++
    (Table.all.filter fun t => m.batches.any (·.1 == t)).map fun t =>
      (seriesText batchesName [("table", t.name)],
        .ofMembers [("values", .ofList .ofNat (m.batchSizes t))]))

end Metrics

end WorkflowEngine
