import WorkflowEngine.Workflow.Definition

/-!
Which tasks a strategy lets in. Each policy looks at the slots of one strategy, filled ones holding
capacity and the others waiting for it, and decides about the slots that change. A task that has to
pass another strategy afterwards is deferred to it.
-/

namespace WorkflowEngine.Admission

/-- A place in a strategy, as a policy sees it. -/
structure Candidate where
  task : Attempt
  key : String
  /-- The age of the place; a smaller one is older. -/
  sortId : Int
  filled : Bool
  queue : String
  /-- The strategies the attempt has to pass after this one. -/
  next : List StrategyId
  deriving DecidableEq, Repr, Inhabited

inductive Verdict where
  | queued
  | cancelled
  /-- Let in here, and on to the next strategy. -/
  | deferred (next : StrategyId)
  deriving DecidableEq, Repr

structure Decision where
  task : Attempt
  queue : String
  verdict : Verdict
  deriving DecidableEq, Repr

namespace Candidate

/-- The decision to let a candidate in: into its queue, or on to the next strategy. -/
def letIn (c : Candidate) : Decision where
  task := c.task
  queue := c.queue
  verdict := match c.next with
    | [] => .queued
    | next :: _ => .deferred next

def cancel (c : Candidate) : Decision := ⟨c.task, c.queue, .cancelled⟩

end Candidate

/-- The keys of the candidates in ascending order, each once. -/
def keys (cs : List Candidate) : List String :=
  ((cs.map (·.key)).mergeSort (fun a b => decide (a ≤ b))).eraseReps

/-- The candidates of one key. -/
def group (key : String) (cs : List Candidate) : List Candidate := cs.filter (·.key == key)

def oldestFirst (cs : List Candidate) : List Candidate :=
  cs.mergeSort fun a b => decide (a.sortId ≤ b.sortId)

def newestFirst (cs : List Candidate) : List Candidate :=
  cs.mergeSort fun a b => decide (b.sortId ≤ a.sortId)

/-! ### Keys in turn -/

/-- How much capacity the candidates of a key hold. -/
def level (key : String) (held : List String) : Nat := held.count key

/-- Of the candidates the one whose key holds the least capacity, and of these the oldest; the first
of several such. -/
def turn? (held : List String) : List Candidate → Option Candidate
  | [] => none
  | c :: rest =>
    match turn? held rest with
    | none => some c
    | some best =>
      let a := level c.key held
      let b := level best.key held
      if b < a ∨ (b = a ∧ best.sortId < c.sortId) then some best else some c

/-- Lets candidates in, one turn after the other, while there is capacity. -/
def takeTurns : Nat → List String → List Candidate → List Decision
  | 0, _, _ => []
  | capacity + 1, held, waiting =>
    match turn? held waiting with
    | none => []
    | some c => c.letIn :: takeTurns capacity (c.key :: held) (waiting.erase c)

/-- Lets in as many as the limit has left, each time from the key that holds the least. -/
def groupRoundRobin (limit : Nat) (cs : List Candidate) : List Decision :=
  let held := (cs.filter (·.filled)).map (·.key)
  takeTurns (limit - held.length) held
    ((keys cs).flatMap fun key => oldestFirst ((group key cs).filter (!·.filled)))

/-! ### Limits for each key -/

/-- Of one key the newest stay, up to the limit, and all others are cancelled. -/
def keepNewest (limit : Nat) (cs : List Candidate) : List Decision :=
  let ranked := newestFirst cs
  ((ranked.take limit).filter (!·.filled)).map Candidate.letIn ++
    (ranked.drop limit).map Candidate.cancel

/-- Of one key the ones let in before stay; the oldest of the others join them up to the limit, and
the rest is cancelled. -/
def keepOldest (limit : Nat) (cs : List Candidate) : List Decision :=
  let waiting := oldestFirst (cs.filter (!·.filled))
  let room := limit - (cs.filter (·.filled)).length
  (waiting.take room).map Candidate.letIn ++ (waiting.drop room).map Candidate.cancel

def cancelInProgress (limit : Nat) (cs : List Candidate) : List Decision :=
  (keys cs).flatMap fun key => keepNewest limit (group key cs)

def cancelNewest (limit : Nat) (cs : List Candidate) : List Decision :=
  (keys cs).flatMap fun key => keepOldest limit (group key cs)

/-- The decisions of a policy about the candidates of a strategy. A limit below zero counts as
zero. -/
def evaluate (policy : Policy) (limit : Int) (cs : List Candidate) : List Decision :=
  match policy with
  | .groupRoundRobin => groupRoundRobin limit.toNat cs
  | .cancelInProgress => cancelInProgress limit.toNat cs
  | .cancelNewest => cancelNewest limit.toNat cs

/-! ### Summary -/

/-- An attempt with its queue. -/
structure Placed where
  task : Attempt
  queue : String
  deriving DecidableEq, Repr

def Placed.toJson (p : Placed) : Json := .ofMembers [("task", encode p.task), ("queue", .str p.queue)]

/-- What came of one evaluation. -/
structure Summary where
  queued : List Placed := []
  cancelled : List Placed := []
  /-- The strategies that attempts were deferred to, each once. -/
  nextStrategyIds : List StrategyId := []
  deriving DecidableEq, Repr, Inhabited

namespace Summary

def isEmpty (s : Summary) : Bool :=
  s.queued.isEmpty && s.cancelled.isEmpty && s.nextStrategyIds.isEmpty

def add (s : Summary) (d : Decision) : Summary :=
  match d.verdict with
  | .queued => { s with queued := s.queued ++ [⟨d.task, d.queue⟩] }
  | .cancelled => { s with cancelled := s.cancelled ++ [⟨d.task, d.queue⟩] }
  | .deferred next =>
    if s.nextStrategyIds.contains next then s
    else { s with nextStrategyIds := s.nextStrategyIds ++ [next] }

def ofDecisions (ds : List Decision) : Summary := ds.foldl add {}

/-- The written form. -/
def toJson (s : Summary) : Json := .ofMembers [
  ("queued", .ofList Placed.toJson s.queued),
  ("cancelled", .ofList Placed.toJson s.cancelled),
  ("next_strategy_ids", .ofList .int s.nextStrategyIds),
  ("is_empty", .bool s.isEmpty)]

end Summary

end WorkflowEngine.Admission
