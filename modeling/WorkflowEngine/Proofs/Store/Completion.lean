import WorkflowEngine.Proofs.Store.Progress
import WorkflowEngine.Proofs.Task.Outcome

/-!
What is left of a run. Once all tasks of a run have ended and their outcomes were announced, the steps
that still wait are those that lie on a cycle of parents or come after one.
-/

namespace WorkflowEngine

open Fallible

namespace Store

variable {s s' : Store} {t u : Task} {x : WaitingStep} {r : DagRecord} {w v : RegisteredWorkflow}
  {p : Part} {o : Outcome} {c cmd : Command} {tenant : TenantId} {events : List OutcomeEvent}
  {evicted more : List Attempt}

/-! ### Steps that could start -/

/-- Announcements to one tenant do not concern the steps of another. -/
theorem noteAll_foreign (member : x ∈ (s.noteAll tenant events).waiting)
    (foreign : x.tenantId ≠ tenant) : x ∈ s.waiting := by
  induction events generalizing s with
  | nil => exact member
  | cons e rest ih =>
    have noted : x ∈ (s.noteOutcome tenant e).agenda.waiting := ih member
    rcases s.noteOutcome_agenda tenant e with same | ⟨t, _, o, owner, _, _, heard⟩
    · rwa [same] at noted
    · rw [heard] at noted
      obtain ⟨x', old, rfl⟩ := List.mem_map.mp noted
      have deaf : ¬ x'.awaits t.part = true := by
        intro awaits
        refine foreign ?_
        rw [WaitingStep.hear_tenantId, (WaitingStep.awaits_iff.mp awaits).1]
        exact owner
      rwa [WaitingStep.hear_deaf deaf]

theorem obey_unready (sound : s.Sound) (unready : s.agenda.Unready)
    (done : s.obey c = .ok (more, s')) : s'.agenda.Unready := by
  rcases obey_agenda sound done with ⟨_, _, _, _, agenda⟩ | advances
  · rw [agenda]
    exact unready
  · cases c with
    | matchOutcomes ids now tenant events =>
      obtain ⟨c, matched, done⟩ := bind_ok done
      cases done
      intro x member
      have waits : x ∈ c.store.waiting := member
      rw [(matchOutcomes_advances matched).2, List.mem_filter] at waits
      by_cases mine : x.tenantId = tenant
      · simpa [mine] using waits.2
      · exact unready x (noteAll_foreign waits.1 mine)
    | _ => exact advances.unready (fun _ _ => id) unready

theorem Reachable.unready (reached : Reachable evicted s) : s.agenda.Unready := by
  induction reached with
  | empty internalRetries => exact fun x member => absurd member List.not_mem_nil
  | after before _ done ih => exact obey_unready before.sound ih done

/-! ### Outcomes that were announced -/

theorem noteAll_informed {e : OutcomeEvent} (sound : s.agenda.Sound)
    (found : s.taskByExternalId? t.externalId = some t) (listed : e ∈ events)
    (read : Outcome.ofKey? e.key = some (o, t.externalId)) :
    (s.noteAll t.tenantId events).agenda.Informed t.part := by
  obtain ⟨earlier, later, rfl⟩ := List.append_of_mem listed
  have advances : ∀ (s : Store) events, Agenda.Advances (fun _ _ => True) s.agenda []
      (s.noteAll t.tenantId events).agenda := fun _ _ => noteAll_advances fun _ _ _ => trivial
  let s₁ := s.noteAll t.tenantId earlier
  have same : s₁.tasks = s.tasks := by
    simp only [s₁]
    rw [noteAll_only]
  have found : s₁.taskByExternalId? t.externalId = some t := by
    rwa [taskByExternalId?, same]
  obtain ⟨o, of, _, heard⟩ := noteOutcome_heard read found
  have informed : (s₁.noteOutcome t.tenantId e).agenda.Informed t.part := by
    rw [heard]
    intro x member awaits
    obtain ⟨x', _, rfl⟩ := List.mem_map.mp member
    have awaits : x'.awaits t.part = true := by simpa [WaitingStep.awaits_iff] using awaits
    exact ⟨o, WaitingStep.hear_heard awaits, of⟩
  have known : t.part ∈ s₁.agenda.parts :=
    List.mem_map_of_mem (same ▸ (taskByExternalId?_mem found).1)
  have orderly : (s₁.noteOutcome t.tenantId e).agenda.Sound :=
    (advances s₁ [e]).sound ((advances s earlier).sound sound)
  have split : s.noteAll t.tenantId (earlier ++ e :: later) =
      (s₁.noteOutcome t.tenantId e).noteAll t.tenantId later := by
    simp [noteAll, s₁]
  rw [split]
  exact (advances _ later).informed orderly ((advances s₁ [e]).parts.subset known) informed

theorem matchOutcomes_informed {ids : IdSource} {now : Instant} {e : OutcomeEvent} {after : Creation}
    (sound : s.agenda.Sound) (found : s.taskByExternalId? t.externalId = some t) (listed : e ∈ events)
    (read : Outcome.ofKey? e.key = some (o, t.externalId))
    (matched : s.matchOutcomes ids now t.tenantId events = .ok after) :
    t.part ∈ after.store.agenda.parts ∧ after.store.agenda.Informed t.part := by
  obtain ⟨advances, waiting⟩ := matchOutcomes_advances matched
  refine ⟨advances.parts.subset (List.mem_map_of_mem (taskByExternalId?_mem found).1), ?_⟩
  intro x member
  have waits : x ∈ after.store.waiting := member
  rw [waiting, List.mem_filter] at waits
  exact noteAll_informed sound found listed read x waits.1

theorem obey_informed (sound : s.Sound) (orderly : s.agenda.Sound) (known : p ∈ s.agenda.parts)
    (informed : s.agenda.Informed p) (done : s.obey c = .ok (more, s')) :
    p ∈ s'.agenda.parts ∧ s'.agenda.Informed p := by
  rcases obey_agenda sound done with ⟨_, _, _, _, agenda⟩ | advances
  · rw [agenda]
    exact ⟨known, informed⟩
  · exact ⟨advances.parts.subset known, advances.informed orderly known informed⟩

/-- One of the commands announces how the task ended, and the store finds the task under the
identifier that it has been told. -/
inductive Announced (t : Task) : Store → List Command → Prop where
  | here {s : Store} {u : Task} {o : Outcome} {e : OutcomeEvent} {events : List OutcomeEvent}
      {ids : IdSource} {now : Instant} {rest : List Command} (ended : t.state.outcome? = some o)
      (listed : e ∈ events) (read : Outcome.ofKey? e.key = some (o, t.externalId))
      (found : s.taskByExternalId? t.externalId = some u) (same : u.part = t.part) :
      Announced t s (.matchOutcomes ids now t.tenantId events :: rest)
  | later {s s' : Store} {c : Command} {more : List Attempt} {rest : List Command}
      (done : s.obey c = .ok (more, s')) (announced : Announced t s' rest) : Announced t s (c :: rest)

theorem Announced.informed {cs : List Command} (announced : Announced t s cs)
    (reached : Reachable evicted s) (done : s.obeyAll cs = .ok (more, s')) :
    s'.agenda.Informed t.part := by
  induction announced generalizing evicted more with
  | @here s u o e events ids now rest _ listed read found same =>
    obtain ⟨⟨_, s₁⟩, obeyed, done⟩ := bind_ok done
    obtain ⟨⟨_, s₂⟩, followed, done⟩ := bind_ok done
    cases done
    have after := reached.after _ obeyed
    have owner : u.tenantId = t.tenantId := congrArg Part.tenantId same
    have id : u.externalId = t.externalId := congrArg Part.externalId same
    rw [← id] at read found
    rw [← owner] at obeyed
    rw [← same]
    obtain ⟨c, matched, stored⟩ := bind_ok obeyed
    cases stored
    have informed := matchOutcomes_informed reached.agenda found listed read matched
    refine (after.keeps (P := fun s => u.part ∈ s.agenda.parts ∧ s.agenda.Informed u.part) informed
      ?_ followed).2
    intro c _ s s' evicted more reached ⟨known, informed⟩ done
    exact obey_informed reached.sound reached.agenda known informed done
  | later first _ ih =>
    obtain ⟨⟨_, s₁⟩, obeyed, done⟩ := bind_ok done
    obtain ⟨⟨_, s₂⟩, followed, done⟩ := bind_ok done
    cases done
    cases first.symm.trans obeyed
    exact ih (reached.after _ obeyed) followed

/-! ### Runs of workflows that stay registered -/

theorem obey_ongoing (sound : s.Sound) (orderly : s.agenda.Sound) (ongoing : s.agenda.Ongoing r w)
    (kept : ∀ v, c = .registerWorkflow w.tenantId v → v.name ≠ w.definition.name)
    (done : s.obey c = .ok (more, s')) : s'.agenda.Ongoing r w := by
  rcases obey_agenda sound done with ⟨owner, v, rfl, _, agenda⟩ | advances
  · rw [agenda]
    refine { ongoing with known := mem_register ongoing.known ?_ }
    rintro ⟨same, name⟩
    exact kept v (congrArg (Command.registerWorkflow · v) same.symm) name.symm
  · exact advances.ongoing orderly ongoing

theorem obeyAll_ongoing {cs : List Command} (reached : Reachable evicted s)
    (ongoing : s.agenda.Ongoing r w)
    (kept : ∀ v, .registerWorkflow w.tenantId v ∈ cs → v.name ≠ w.definition.name)
    (done : s.obeyAll cs = .ok (more, s')) : s'.agenda.Ongoing r w := by
  refine reached.keeps (P := fun s => s.agenda.Ongoing r w) ongoing ?_ done
  intro c listed s s' evicted more reached ongoing done
  exact obey_ongoing reached.sound reached.agenda ongoing (fun v same => kept v (same ▸ listed)) done

/-- A run that a command triggers is of the workflow that was registered under its name. -/
theorem obey_triggered (sound : s.Sound) (orderly : s.agenda.Sound)
    (known : s.workflow? r.dag.tenantId r.workflowName = some w) (done : s.obey c = .ok (more, s'))
    (new : r ∉ s.dags) (triggered : r ∈ s'.dags) : s'.agenda.Ongoing r w := by
  rcases obey_agenda sound done with ⟨_, _, _, _, agenda⟩ | advances
  · have same : s'.dags = s.dags := congrArg Agenda.runs agenda
    exact absurd (same ▸ triggered) new
  · obtain ⟨v, ongoing⟩ := (advances.new orderly triggered).resolve_left new
    obtain ⟨listed, owner, name⟩ := workflow?_mem known
    have registered : v ∈ s.agenda.workflows := advances.workflows ▸ ongoing.known
    have same : w = v := orderly.catalogued.unique listed registered
      (owner.trans ongoing.of.tenant) (name.trans ongoing.of.name)
    exact same ▸ ongoing

/-- When a run has been triggered from a workflow that stays registered, all its tasks have ended and
the ends were announced, the steps that wait are those on a cycle of parents and those behind one. -/
theorem waits_iff_behindCycle {s₀ s₁ s₂ : Store} {cs : List Command} {first later : List Attempt}
    (reached : Reachable evicted s₀)
    (known : s₀.workflow? r.dag.tenantId r.workflowName = some w)
    (done : s₀.obey c = .ok (first, s₁)) (new : r ∉ s₀.dags) (triggered : r ∈ s₁.dags)
    (followed : s₁.obeyAll cs = .ok (later, s₂))
    (kept : ∀ v, .registerWorkflow r.dag.tenantId v ∈ cs → v.name ≠ r.workflowName)
    (announced : ∀ t ∈ s₂.tasks, t.dagId = some r.dag.id → Announced t s₁ cs) (q : String) :
    (∃ x ∈ s₂.waiting, x.dagId = r.dag.id ∧ x.step = q) ↔
      ∃ step ∈ w.definition.steps, step.readableId = q ∧ w.definition.BehindCycle q := by
  have reached₁ := reached.after c done
  have ongoing := obey_triggered reached.sound reached.agenda known done new triggered
  rw [ongoing.of.tenant, ongoing.of.name] at kept
  have ongoing₂ := obeyAll_ongoing reached₁ ongoing kept followed
  have reached₂ := reached₁.all cs followed
  refine ongoing₂.waits_iff reached₂.agenda reached₂.unready (fun p member mine => ?_) q
  obtain ⟨t, ht, rfl⟩ := List.mem_map.mp member
  exact (announced t ht mine).informed reached₁ followed

/-- An order is paid for and then shipped. A refund and its approval wait for each other. -/
def circularOrder : Workflow where
  id := ⟨1⟩
  name := "order"
  steps := [
    { id := ⟨2⟩, readableId := "pay", queue := "default" },
    { id := ⟨4⟩, readableId := "ship", queue := "default", parents := ["pay"] },
    { id := ⟨5⟩, readableId := "refund", queue := "default", parents := ["approve"] },
    { id := ⟨6⟩, readableId := "approve", queue := "default", parents := ["refund"] }]

def placeOrder : Command :=
  .triggerRuns {} ⟨0⟩ ⟨3⟩ [{ externalId := ⟨7⟩, workflowName := "order", data := .null }]

/-- The order is paid for and shipped, and both is announced. -/
def fulfilment : List Command := [
  .complete ⟨3⟩ [⟨1, 0⟩],
  .matchOutcomes ⟨1⟩ ⟨0⟩ ⟨3⟩ [⟨⟨0⟩, Outcome.completed.key (.generated 1), .null⟩],
  .complete ⟨3⟩ [⟨2, 0⟩],
  .matchOutcomes ⟨2⟩ ⟨0⟩ ⟨3⟩ [⟨⟨0⟩, Outcome.completed.key (.generated 2), .null⟩]]

def afterAll (s : Store) (cs : List Command) : Store :=
  match s.obeyAll cs with
  | .ok (_, s) => s
  | .error _ => s

def offered : Store := afterAll {} [.registerWorkflow ⟨3⟩ circularOrder, .createPartitions ⟨0⟩]

def placed : Store := offered.afterAll [placeOrder]

def fulfilled : Store := placed.afterAll fulfilment

theorem offered_reachable : Reachable [] offered :=
  (Reachable.empty 3).all [.registerWorkflow ⟨3⟩ circularOrder, .createPartitions ⟨0⟩] rfl

theorem fulfilment_announced : ∀ t ∈ fulfilled.tasks, Announced t placed fulfilment := by
  intro t ht
  have tasks : ∃ pay ship, fulfilled.tasks = [pay, ship] ∧
      Announced pay placed fulfilment ∧ Announced ship placed fulfilment := by
    refine ⟨_, _, rfl, .later rfl ?_, .later rfl (.later rfl (.later rfl ?_))⟩
    · exact .here rfl (List.mem_singleton.mpr rfl) rfl rfl rfl
    · exact .here rfl (List.mem_singleton.mpr rfl) rfl rfl rfl
  obtain ⟨pay, ship, listed, paid, shipped⟩ := tasks
  rw [listed] at ht
  rcases List.mem_pair.mp ht with rfl | rfl
  · exact paid
  · exact shipped

theorem fulfilled_waits_iff : fulfilled.waiting.map (·.step) = ["refund", "approve"] ∧
    ∃ r ∈ fulfilled.dags, ∀ q, (∃ x ∈ fulfilled.waiting, x.dagId = r.dag.id ∧ x.step = q) ↔
      ∃ step ∈ circularOrder.steps, step.readableId = q ∧ circularOrder.BehindCycle q := by
  refine ⟨rfl, _, List.mem_singleton.mpr rfl, ?_⟩
  have followed : placed.obeyAll fulfilment = .ok ([], fulfilled) := rfl
  refine waits_iff_behindCycle offered_reachable (w := ⟨⟨3⟩, circularOrder, _⟩) rfl (c := placeOrder)
    rfl List.not_mem_nil (List.mem_singleton.mpr rfl) followed ?_ ?_
  · simp [fulfilment]
  · exact fun t ht _ => fulfilment_announced t ht

/-- Valid workflows can hang: a step that waits for itself by way of another is never heard of. -/
theorem fulfilled_hangs : circularOrder.validate = .ok () ∧ Reachable [] offered ∧
    (offered.workflow? ⟨3⟩ "order").map (·.definition) = some circularOrder ∧
    offered.dags = [] ∧ offered.obey placeOrder = .ok ([], placed) ∧
    placed.obeyAll fulfilment = .ok ([], fulfilled) ∧
    (∀ tenant v, .registerWorkflow tenant v ∉ fulfilment) ∧
    (∀ t ∈ fulfilled.tasks, t.state.isTerminal = true ∧ Announced t placed fulfilment) ∧
    ∃ r ∈ placed.dags, r.workflowName = "order" ∧ ∃ x ∈ fulfilled.waiting, x.dagId = r.dag.id := by
  refine ⟨rfl, offered_reachable, rfl, rfl, rfl, rfl, by simp [fulfilment], fun t ht => ?_, ?_⟩
  · have ended : ∀ t ∈ fulfilled.tasks, t.state.isTerminal = true := by decide
    exact ⟨ended t ht, fulfilment_announced t ht⟩
  · exact ⟨_, List.mem_singleton.mpr rfl, rfl, _, List.mem_cons_self, rfl⟩

end Store

end WorkflowEngine
