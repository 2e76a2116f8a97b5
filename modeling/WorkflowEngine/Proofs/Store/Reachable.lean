import WorkflowEngine.Proofs.Store.Operation

/-!
The states that a store can be in: whatever commands it is given, in whatever order, as long as none
of them fails. In every one of them slots and queue agree with the tasks.
-/

namespace WorkflowEngine

/-- What a store can be told to do. -/
inductive Command where
  | registerTenant (t : Tenant)
  | registerWorker (w : Worker)
  | setWorkerActive (id : WorkerId) (active : Bool)
  | registerWorkflow (tenant : TenantId) (w : Workflow)
  | createPartitions (now : Instant)
  | triggerEvents (ids : IdSource) (now : Instant) (tenant : TenantId) (events : List UserEvent)
  | triggerRuns (ids : IdSource) (now : Instant) (tenant : TenantId) (requests : List RunRequest)
  | matchOutcomes (ids : IdSource) (now : Instant) (tenant : TenantId) (events : List OutcomeEvent)
  | complete (tenant : TenantId) (attempts : List Attempt)
  | fail (now : Instant) (tenant : TenantId) (failures : List Failure)
  | cancel (tenant : TenantId) (attempts : List Attempt)
  | assign (now : Instant) (tenant : TenantId) (assignments : List Assignment)
  | runStrategy (tenant : TenantId) (strategy : Strategy)
  | refreshActive (tenant : TenantId) (strategy : StrategyId)

namespace Store

open Fallible

variable {s s' : Store} {evicted : List Attempt} {c : Command}

/-- Carries out a command, and tells which attempts a strategy evicted. -/
def obey (s : Store) : Command → Except Fault (List Attempt × Store)
  | .registerTenant t => .ok ([], s.registerTenant t)
  | .registerWorker w => .ok ([], s.registerWorker w)
  | .setWorkerActive id active => do return ([], ← s.setWorkerActive id active)
  | .registerWorkflow tenant w => do
    w.validate
    return ([], (s.registerWorkflow tenant w).2)
  | .createPartitions now => .ok ([], s.createPartitions now)
  | .triggerEvents ids now tenant events => do
    return ([], (← s.triggerEvents ids now tenant events).store)
  | .triggerRuns ids now tenant requests => do
    return ([], (← s.triggerRuns ids now tenant requests).store)
  | .matchOutcomes ids now tenant events => do
    return ([], (← s.matchOutcomes ids now tenant events).store)
  | .complete tenant attempts => .ok ([], (s.complete tenant attempts).2)
  | .fail now tenant failures => do return ([], (← s.fail now tenant failures).2)
  | .cancel tenant attempts => .ok ([], (s.cancel tenant attempts).2)
  | .assign now tenant assignments => do return ([], (← s.assign now tenant assignments).2)
  | .runStrategy tenant strategy =>
    let (summary, s) := s.runStrategy tenant strategy
    .ok (summary.cancelled.map (·.task), s)
  | .refreshActive tenant strategy => .ok ([], (s.refreshActive tenant strategy).2)

/-- The states a store can get into, with the attempts that were evicted on the way. -/
inductive Reachable : List Attempt → Store → Prop where
  | empty (internalRetries : Int) : Reachable [] { internalRetries }
  | after {s s' : Store} {evicted more : List Attempt} (before : Reachable evicted s) (c : Command)
      (done : s.obey c = .ok (more, s')) : Reachable (evicted ++ more) s'

/-- Carries out commands in order. -/
def obeyAll (s : Store) : List Command → Except Fault (List Attempt × Store)
  | [] => .ok ([], s)
  | c :: rest => do
    let (evicted, s) ← s.obey c
    let (later, s) ← s.obeyAll rest
    return (evicted ++ later, s)

theorem Reachable.all {more : List Attempt} (before : Reachable evicted s) (cs : List Command)
    (done : s.obeyAll cs = .ok (more, s')) : Reachable (evicted ++ more) s' := by
  induction cs generalizing s evicted more with
  | nil =>
    cases done
    rwa [List.append_nil]
  | cons c rest ih =>
    obtain ⟨⟨first, s₁⟩, obeyed, done⟩ := bind_ok done
    obtain ⟨⟨later, s₂⟩, rest, done⟩ := bind_ok done
    cases done
    rw [← List.append_assoc]
    exact ih (before.after c obeyed) rest

/-- What each of the commands keeps is kept by all of them. -/
theorem Reachable.keeps {P : Store → Prop} {cs : List Command} {more : List Attempt}
    (reached : Reachable evicted s) (holds : P s)
    (keeps : ∀ c ∈ cs, ∀ s s' evicted more, Reachable evicted s → P s →
      s.obey c = .ok (more, s') → P s')
    (done : s.obeyAll cs = .ok (more, s')) : P s' := by
  induction cs generalizing s evicted more with
  | nil =>
    cases done
    exact holds
  | cons c rest ih =>
    obtain ⟨⟨first, s₁⟩, obeyed, done⟩ := bind_ok done
    obtain ⟨⟨later, s₂⟩, followed, done⟩ := bind_ok done
    cases done
    exact ih (reached.after c obeyed) (keeps c List.mem_cons_self s s₁ evicted first reached holds obeyed)
      (fun c' later => keeps c' (List.mem_cons_of_mem c later)) followed

/-- What a command does comes down to moves. -/
theorem obey_moves (h : s.obey c = .ok (evicted, s')) : Moves s evicted s' := by
  cases c with
  | registerTenant t =>
    cases h
    exact .one (.other ⟨rfl, rfl, rfl, rfl, rfl, rfl, rfl, rfl⟩)
  | registerWorker w =>
    cases h
    exact .one (.other ⟨rfl, rfl, rfl, rfl, rfl, rfl, rfl, rfl⟩)
  | setWorkerActive id active =>
    obtain ⟨_, set, h⟩ := bind_ok h
    cases h
    unfold setWorkerActive at set
    split at set
    · cases set
    · cases set
      exact .one (.other ⟨rfl, rfl, rfl, rfl, rfl, rfl, rfl, rfl⟩)
  | registerWorkflow tenant w =>
    obtain ⟨_, valid, h⟩ := bind_ok h
    cases h
    exact .one (.registered valid)
  | createPartitions now =>
    cases h
    exact .one (.other ⟨rfl, rfl, rfl, rfl, rfl, rfl, rfl, rfl⟩)
  | triggerEvents ids now tenant events =>
    obtain ⟨_, triggered, h⟩ := bind_ok h
    cases h
    exact triggerEvents_quiet triggered
  | triggerRuns ids now tenant requests =>
    obtain ⟨_, triggered, h⟩ := bind_ok h
    cases h
    exact triggerRuns_quiet triggered
  | matchOutcomes ids now tenant events =>
    obtain ⟨_, matched, h⟩ := bind_ok h
    cases h
    exact matchOutcomes_quiet matched
  | complete tenant attempts =>
    cases h
    exact complete_quiet s tenant attempts
  | fail now tenant failures =>
    obtain ⟨_, failed, h⟩ := bind_ok h
    cases h
    exact fail_quiet failed
  | cancel tenant attempts =>
    cases h
    exact cancel_quiet s tenant attempts
  | assign now tenant assignments =>
    obtain ⟨_, assigned, h⟩ := bind_ok h
    cases h
    exact assign_quiet assigned
  | runStrategy tenant strategy =>
    cases h
    exact .one (.ran tenant strategy)
  | refreshActive tenant strategy =>
    cases h
    exact .one (.refreshed tenant strategy)

theorem Reachable.moves (reached : Reachable evicted s) :
    ∃ internalRetries, Moves { internalRetries } evicted s := by
  induction reached with
  | empty internalRetries => exact ⟨internalRetries, .none _⟩
  | after _ c done ih =>
    obtain ⟨internalRetries, moves⟩ := ih
    exact ⟨internalRetries, moves.trans (obey_moves done)⟩

theorem Reachable.sound (reached : Reachable evicted s) : s.Sound := by
  obtain ⟨internalRetries, moves⟩ := reached.moves
  exact moves.sound (sound_empty internalRetries)

/-! ### Slots and queue -/

/-- The slots of a task are those of its first strategies: each with the key of its strategy and the
strategies after it, and filled unless it is the last. -/
def Covers (s : Store) (t : Task) : Prop :=
  ∀ (n : Nat) (x : Slot), (s.slotsFor t.id)[n]? = some x →
    t.concurrencyStrategyIds[n]? = some x.strategyId ∧ t.concurrencyKeys[n]? = some x.key ∧
      x.next = t.concurrencyStrategyIds.drop (n + 1) ∧
        (n + 1 < (s.slotsFor t.id).length → x.filled = true)

/-- The slots and the queue items of a task are of its tenant and its current attempt, and agree with
its way through its strategies. -/
structure Placed (s : Store) (t : Task) : Prop where
  slots : ∀ x ∈ s.slots, x.task.id = t.id →
    x.tenantId = t.tenantId ∧ x.task = t.attempt ∧ t.state.isTerminal = false
  items : ∀ q ∈ s.queueItems, q.task.id = t.id →
    q.tenantId = t.tenantId ∧ q.task = t.attempt ∧ t.state.isTerminal = false
  covers : s.Covers t
  queued : ∀ q ∈ s.queueItems, q.task.id = t.id → t.state = .queued ∧
    ∀ σ ∈ t.concurrencyStrategyIds, ∃ x ∈ s.slotsFor t.id, x.strategyId = σ ∧ x.filled = true

theorem getElem?_of_map_prefix {α β : Type} {f : α → β} {l : List α} {m : List β} {n : Nat} {a : α}
    (sub : l.map f <+: m) (here : l[n]? = some a) : m[n]? = some (f a) := by
  obtain ⟨rest, rfl⟩ := sub
  have bound : n < (l.map f).length := by
    rw [List.length_map]
    exact (List.getElem?_eq_some_iff.mp here).1
  rw [List.getElem?_append_left bound, List.getElem?_map, here]
  rfl

theorem Standing.covers {t : Task} (standing : s.Standing t) (wired : s.Wired t) : s.Covers t := by
  intro n x here
  have member := List.mem_of_getElem? here
  have strategy := getElem?_of_map_prefix standing.strategies here
  refine ⟨strategy, getElem?_of_map_prefix standing.keys here, ?_, ?_⟩
  · obtain ⟨passed, way⟩ := standing.next x member
    obtain ⟨bound, read⟩ := List.getElem?_eq_some_iff.mp strategy
    have place : passed.length < t.concurrencyStrategyIds.length := by
      rw [way, List.length_append, List.length_cons]
      exact Nat.lt_add_of_pos_right (Nat.succ_pos _)
    have same : t.concurrencyStrategyIds[n] = t.concurrencyStrategyIds[passed.length] := by
      rw [read]
      simp [way]
    rw [wired.distinct.getElem_inj_iff.mp same, way]
    have split : passed ++ x.strategyId :: x.next = (passed ++ [x.strategyId]) ++ x.next := by simp
    rw [split, List.drop_left' (by simp)]
  · intro more
    refine standing.filled x ?_
    rw [List.dropLast_eq_take]
    refine List.mem_of_getElem? (i := n) ?_
    rw [List.getElem?_take_of_lt (Nat.lt_sub_of_add_lt more), here]

theorem Sound.placed (sound : s.Sound) {t : Task} (ht : t ∈ s.tasks) : s.Placed t := by
  have standing := sound.standing t ht
  refine ⟨?_, ?_, standing.covers (sound.wired t ht), ?_⟩
  · intro x hx mine
    have held := mem_slotsFor.mpr ⟨hx, mine⟩
    obtain ⟨tenant, attempt, _⟩ := standing.own x held
    refine ⟨tenant, attempt, Bool.eq_false_iff.mpr ?_⟩
    intro ended
    rw [standing.ended ended] at held
    cases held
  · intro q hq mine
    obtain ⟨rfl, state, _⟩ := standing.item q hq mine
    exact ⟨rfl, rfl, by rw [state]; rfl⟩
  · intro q hq mine
    obtain ⟨_, state, passed, filled⟩ := standing.item q hq mine
    refine ⟨state, ?_⟩
    rw [← passed]
    intro σ member
    obtain ⟨x, hx, rfl⟩ := List.mem_map.mp member
    exact ⟨x, hx, rfl, filled x hx⟩

/-- In every state that a store can be in, each slot and each queue item has its task and agrees with
it, so that no slot is ever stale. -/
theorem reachable_slots_and_queue (reached : Reachable evicted s) :
    (∀ x ∈ s.slots, ∃ t ∈ s.tasks, t.id = x.task.id) ∧
      (∀ q ∈ s.queueItems, ∃ t ∈ s.tasks, t.id = q.task.id) ∧
      (∀ t ∈ s.tasks, s.Placed t) ∧ ∀ σ, s.pruneSlots σ = s :=
  have sound := reached.sound
  ⟨sound.slotOwner, sound.itemOwner, fun _ => sound.placed, sound.pruneSlots_eq⟩

/-- A workflow that runs one task of each user and two in all at a time. -/
def oneForEachUser : Workflow where
  id := ⟨1⟩
  name := "mail"
  steps := [
    { id := ⟨2⟩, readableId := "send", queue := "default"
      limits := [
        { expression := "input.user", maxConcurrency := 1, policy := .cancelNewest },
        { expression := "input.user", maxConcurrency := 2, policy := .groupRoundRobin }] }]

/-- The order to run it for a user. -/
def mailFor (user : String) (externalId : ExternalId) : RunRequest where
  externalId := externalId
  workflowName := "mail"
  data := .obj [("user", .str user)]

/-- The store in which it was triggered twice for the same user. -/
def mailed : Store :=
  match obeyAll {} [.registerWorkflow ⟨3⟩ oneForEachUser, .createPartitions ⟨0⟩,
    .triggerRuns {} ⟨0⟩ ⟨3⟩ [mailFor "ann" ⟨7⟩, mailFor "ann" ⟨8⟩]] with
  | .ok (_, s) => s
  | .error _ => {}

theorem mailed_reachable : Reachable [] mailed :=
  (Reachable.empty 3).all [.registerWorkflow ⟨3⟩ oneForEachUser, .createPartitions ⟨0⟩,
    .triggerRuns {} ⟨0⟩ ⟨3⟩ [mailFor "ann" ⟨7⟩, mailFor "ann" ⟨8⟩]] rfl

theorem mailed_slots_and_queue : mailed.tasks.length = 2 ∧ mailed.slots.length = 2 ∧
    (∀ t ∈ mailed.tasks, mailed.Placed t) ∧ ∀ σ, mailed.pruneSlots σ = mailed := by
  obtain ⟨_, _, placed, fresh⟩ := reachable_slots_and_queue mailed_reachable
  exact ⟨rfl, rfl, placed, fresh⟩

end Store

end WorkflowEngine
