import WorkflowEngine.Task.Basic
import WorkflowEngine.Workflow.KeyExpression

/-!
Workflows as their authors define them. A step without parents starts when the workflow is
triggered; any other step starts once each of its parents has ended.
-/

namespace WorkflowEngine

/-- What happens when more tasks want to run than a limit allows. -/
inductive Policy where
  /-- The limit counts all tasks; keys take turns. -/
  | groupRoundRobin
  /-- The limit counts the tasks of one key; the newest stay and the others are cancelled, running
  or not. -/
  | cancelInProgress
  /-- The limit counts the tasks of one key; running and older ones stay and newer ones are
  cancelled. -/
  | cancelNewest
  deriving DecidableEq, Repr

namespace Policy

def all : List Policy := [groupRoundRobin, cancelInProgress, cancelNewest]

def name : Policy → String
  | groupRoundRobin => "GROUP_ROUND_ROBIN"
  | cancelInProgress => "CANCEL_IN_PROGRESS"
  | cancelNewest => "CANCEL_NEWEST"

def ofName? (s : String) : Option Policy := all.find? (·.name == s)

instance : Codec Policy where
  encode p := .str p.name
  decode := Decoder.constant ofName?

end Policy

/-- A limit on how many tasks of a step run at once. -/
structure StepLimit where
  expression : String
  maxConcurrency : Int
  policy : Policy
  deriving DecidableEq, Repr

instance : Codec StepLimit where
  encode l := .ofMembers [
    ("expression", .str l.expression),
    ("max_concurrency", .int l.maxConcurrency),
    ("strategy", encode l.policy)]
  decode depth d := do
    let fields ← Fields.of? ["expression", "max_concurrency", "strategy"] depth d
    return { expression := ← fields.required "expression" .text
             maxConcurrency := ← fields.required "max_concurrency" .int32
             policy := ← fields.required "strategy" Codec.decode }

/-- Skips a step if a member of its input has a certain value. -/
structure SkipCondition where
  field : String
  expected : Json

namespace SkipCondition

def holds (c : SkipCondition) (input : Json) : Bool :=
  match input.get? c.field with
  | some value => value.same c.expected
  | none => false

instance : Codec SkipCondition where
  encode c := .ofMembers [("field", .str c.field), ("equals", c.expected)]
  decode depth d := do
    let fields ← Fields.of? ["field", "equals"] depth d
    return { field := ← fields.required "field" .text
             expected := ← fields.required "equals" .json }

end SkipCondition

structure Step where
  id : StepId
  /-- Unique within the workflow. -/
  readableId : String
  queue : String
  /-- How often an attempt that fails with an error of its own is repeated. -/
  retries : Int := 0
  parents : List String := []
  /-- The limits a task has to pass, in order. -/
  limits : List StepLimit := []
  /-- Seconds a task may wait for a worker. -/
  scheduleTimeoutSecs : Int := 300
  /-- Seconds an attempt may run. -/
  stepTimeoutSecs : Int := 60
  skipIf : Option SkipCondition := none

namespace Step

def isRoot (s : Step) : Bool := s.parents.isEmpty

def fieldNames : List String :=
  ["id", "readable_id", "queue", "retries", "parents", "concurrency", "schedule_timeout_secs",
   "step_timeout_secs", "skip_if"]

instance : Codec Step where
  encode s := .ofMembers [
    ("id", encode s.id),
    ("readable_id", .str s.readableId),
    ("queue", .str s.queue),
    ("retries", .int s.retries),
    ("parents", .ofList .str s.parents),
    ("concurrency", .ofList encode s.limits),
    ("schedule_timeout_secs", .int s.scheduleTimeoutSecs),
    ("step_timeout_secs", .int s.stepTimeoutSecs),
    ("skip_if", .ofOption encode s.skipIf)]
  decode depth d := do
    let fields ← Fields.of? fieldNames depth d
    return {
      id := ← fields.required "id" Codec.decode
      readableId := ← fields.required "readable_id" .text
      queue := ← fields.required "queue" .text
      retries := ← fields.required "retries" .int32
      parents := ← fields.required "parents" (.list .text)
      limits := ← fields.required "concurrency" (.list Codec.decode)
      scheduleTimeoutSecs := ← fields.required "schedule_timeout_secs" .int64
      stepTimeoutSecs := ← fields.required "step_timeout_secs" .int64
      skipIf := ← fields.optional "skip_if" Codec.decode }

/-- The key of each limit for an input, or the reason why the first that has none has none. -/
def keys (s : Step) (input : Json) : Except String (List String) :=
  s.limits.mapM fun l =>
    (KeyExpression.evaluate l.expression input).mapError (·.message l.expression)

end Step

structure Workflow where
  id : WorkflowId
  name : String
  /-- The keys of the user events that trigger the workflow. -/
  eventTriggers : List String := []
  steps : List Step := []

namespace Workflow

def fieldNames : List String := ["id", "name", "event_triggers", "steps"]

instance : Codec Workflow where
  encode w := .ofMembers [
    ("id", encode w.id),
    ("name", .str w.name),
    ("event_triggers", .ofList .str w.eventTriggers),
    ("steps", .ofList encode w.steps)]
  decode depth d := do
    let fields ← Fields.of? fieldNames depth d
    return {
      id := ← fields.required "id" Codec.decode
      name := ← fields.required "name" .text
      eventTriggers := ← fields.required "event_triggers" (.list .text)
      steps := ← fields.required "steps" (.list Codec.decode) }

/-- Triggering makes a run with a task per step, not a single task. -/
def isDag (w : Workflow) : Bool := decide (1 < w.steps.length) || w.steps.any (!·.isRoot)

def rootSteps (w : Workflow) : List Step := w.steps.filter (·.isRoot)

def childSteps (w : Workflow) : List Step := w.steps.filter (!·.isRoot)

def step? (w : Workflow) (readableId : String) : Option Step :=
  w.steps.find? (·.readableId == readableId)

/-- Gives fresh identifiers to steps, in order. -/
def identifySteps : IdSource → List Step → List Step × IdSource
  | ids, [] => ([], ids)
  | ids, s :: rest =>
    let (id, ids) := ids.draw
    let (steps, ids) := identifySteps ids rest
    ({ s with id } :: steps, ids)

/-- Gives fresh identifiers to a workflow and then to its steps. -/
def identify (w : Workflow) (ids : IdSource) : Workflow × IdSource :=
  let (id, ids) := ids.draw
  let (steps, ids) := identifySteps ids w.steps
  ({ w with id, steps }, ids)

/-- What is wrong with a definition. -/
inductive Defect where
  | noSteps (workflow : String)
  | declaredTwice (workflow step : String)
  | unknownParent (step parent : String)
  | limitNotPositive (step : String)
  deriving DecidableEq, Repr

namespace Defect

def message : Defect → String
  | noSteps workflow => s!"workflow '{workflow}' has no steps"
  | declaredTwice workflow step => s!"workflow '{workflow}' declares step '{step}' twice"
  | unknownParent step parent => s!"step '{step}' depends on unknown step '{parent}'"
  | limitNotPositive step => s!"step '{step}' has a non-positive concurrency bound"

def fault (d : Defect) : Fault := .value (.invalidInput d.message)

end Defect

/-- The first name that an earlier one repeats. -/
def repeated? : List String → List String → Option String
  | _, [] => none
  | seen, name :: rest => if seen.contains name then some name else repeated? (name :: seen) rest

def stepDefect? (names : List String) (s : Step) : Option Defect :=
  match s.parents.find? fun p => !names.contains p with
  | some parent => some (.unknownParent s.readableId parent)
  | none => if s.limits.any (·.maxConcurrency ≤ 0) then some (.limitNotPositive s.readableId) else none

/-- The first defect: no steps, then a name given twice, then the steps in order. -/
def defect? (w : Workflow) : Option Defect :=
  let names := w.steps.map (·.readableId)
  if w.steps.isEmpty then some (.noSteps w.name)
  else match repeated? [] names with
    | some step => some (.declaredTwice w.name step)
    | none => w.steps.findSome? (stepDefect? names)

def validate (w : Workflow) : Except Fault Unit :=
  match w.defect? with
  | some d => .error d.fault
  | none => .ok ()

end Workflow

end WorkflowEngine
