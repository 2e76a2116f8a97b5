import WorkflowEngine.Proofs.Store.Lifecycle

/-!
How a store moves. A move is what can happen at once: something happens to one task, a strategy runs,
a workflow is registered, or something changes that no task depends on. Every operation comes down to
a sequence of moves, so what each move keeps holds in every state the store can be in.
-/

namespace WorkflowEngine.Store

open Fallible

variable {s s' s'' : Store} {t u : Task}

/-- The stores differ in nothing that slots and queue depend on. -/
structure Alike (s s' : Store) : Prop where
  strategies : s'.strategies = s.strategies
  workflows : s'.workflows = s.workflows
  numbered : s'.lastStrategyId = s.lastStrategyId
  retries : s'.internalRetries = s.internalRetries
  tasks : s'.tasks = s.tasks
  slots : s'.slots = s.slots
  items : s'.queueItems = s.queueItems
  last : s'.lastTaskId = s.lastTaskId

theorem Alike.terms (alike : Alike s s') : SameTerms s s' :=
  ⟨by rw [alike.strategies], alike.workflows, alike.numbered, alike.retries⟩

/-- One change of a store, with the attempts that a strategy evicted by it. -/
inductive Move : Store → List Attempt → Store → Prop where
  | created {s s' : Store} {w : RegisteredWorkflow} {step : Step} {n : NewTask} {now : Instant}
      {t : Task} (known : w ∈ s.workflows) (own : step ∈ w.definition.steps)
      (free : ∀ p ∈ n.forced, p.1 ≠ .queued) (done : s.insertTask w step n now = .ok (t, s')) :
      Move s [] s'
  | ended {s : Store} {t u : Task} (ht : t ∈ s.tasks) (live : t.state.isTerminal = false)
      (keeps : t.Keeps u) (ends : u.state.isTerminal = true) :
      Move s [] ((s.setTask u).release u.id)
  | retried {s : Store} {t u : Task} (ht : t ∈ s.tasks) (live : t.state.isTerminal = false)
      (keeps : t.Keeps u) (state : u.state = .queued) :
      Move s [] (((s.setTask u).release u.id).enqueue u)
  | started {s : Store} {t u : Task} (ht : t ∈ s.tasks) (keeps : t.Keeps u)
      (attempt : u.attempt = t.attempt) (state : u.state = .running)
      (waits : ∃ q ∈ s.queueItems, q.task.id = t.id) : Move s [] (s.start u)
  | ran {s : Store} (tenant : TenantId) (strategy : Strategy) :
      Move s ((s.runStrategy tenant strategy).1.cancelled.map (·.task))
        (s.runStrategy tenant strategy).2
  | registered {s : Store} {tenant : TenantId} {w : Workflow} (valid : w.validate = .ok ()) :
      Move s [] (s.registerWorkflow tenant w).2
  | refreshed {s : Store} (tenant : TenantId) (strategy : StrategyId) :
      Move s [] (s.refreshActive tenant strategy).2
  | other {s s' : Store} (alike : Alike s s') : Move s [] s'

/-- Noting whether a strategy has slots changes the note, and nothing else. -/
theorem refreshActive_eq {tenant : TenantId} {strategy : StrategyId} :
    (s.refreshActive tenant strategy).2 =
      { s with strategies := (s.refreshActive tenant strategy).2.strategies } := by
  simp only [refreshActive]
  split <;> rfl

theorem refreshActive_terms {tenant : TenantId} {strategy : StrategyId} :
    SameTerms s (s.refreshActive tenant strategy).2 := by
  simp only [refreshActive]
  split
  · exact setStrategyActive_terms
  · exact .refl s

theorem refreshActive_sound (sound : s.Sound) (tenant : TenantId) (strategy : StrategyId) :
    (s.refreshActive tenant strategy).2.Sound := by
  have terms : SameTerms s (s.refreshActive tenant strategy).2 := refreshActive_terms
  refine sound.of_parts (terms.registry sound.registry) (fun _ _ => terms.offers) ?_ ?_ ?_ ?_ <;>
    rw [refreshActive_eq]

theorem Move.sound {evicted : List Attempt} (move : Move s evicted s') (sound : s.Sound) :
    s'.Sound := by
  cases move with
  | created known own free done => exact insertTask_sound sound known own free done
  | ended ht live keeps ends => exact finish_sound sound ht keeps
  | retried ht live keeps state => exact retry_sound sound ht keeps state
  | started ht keeps attempt state waits => exact start_sound sound ht keeps attempt state waits
  | ran tenant strategy => exact runStrategy_sound sound tenant strategy
  | registered valid => exact registerWorkflow_sound sound valid
  | refreshed tenant strategy => exact refreshActive_sound sound tenant strategy
  | other alike =>
    exact sound.of_parts (alike.terms.registry sound.registry) (fun _ _ => alike.terms.offers)
      alike.tasks alike.slots alike.items alike.last

/-- Moves in sequence, with all the attempts evicted by them. -/
inductive Moves : Store → List Attempt → Store → Prop where
  | none (s : Store) : Moves s [] s
  | more {s s' s'' : Store} {earlier evicted : List Attempt} (before : Moves s earlier s')
      (move : Move s' evicted s'') : Moves s (earlier ++ evicted) s''

theorem Moves.sound {evicted : List Attempt} (moves : Moves s evicted s') (sound : s.Sound) :
    s'.Sound := by
  induction moves with
  | none => exact sound
  | more _ move ih => exact move.sound ih

theorem Moves.one {evicted : List Attempt} (move : Move s evicted s') : Moves s evicted s' :=
  .more (.none s) move

theorem Moves.trans {earlier later : List Attempt} (first : Moves s earlier s')
    (second : Moves s' later s'') : Moves s (earlier ++ later) s'' := by
  induction second with
  | none =>
    rw [List.append_nil]
    exact first
  | more _ move ih =>
    rw [← List.append_assoc]
    exact .more ih move

/-- Moves by which nothing is evicted. -/
def Quiet (s s' : Store) : Prop := Moves s [] s'

theorem Quiet.refl (s : Store) : Quiet s s := .none s

theorem Quiet.trans (first : Quiet s s') (second : Quiet s' s'') : Quiet s s'' :=
  Moves.trans first second

theorem Move.quiet (move : Move s [] s') : Quiet s s' := Moves.one move

end WorkflowEngine.Store
