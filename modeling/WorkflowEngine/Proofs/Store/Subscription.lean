import WorkflowEngine.Proofs.Identifier
import WorkflowEngine.Proofs.Store.Growth

/-!
What events from outside come to. Each delivery of an event runs every workflow of the tenant that its
key triggers, once and under an id that is drawn for it. The id of the event has no part in this.
-/

namespace WorkflowEngine

open Fallible Store

variable {s s' : Store} {c c' : Creation} {ids : IdSource} {tenant : TenantId} {now : Instant}
  {w : RegisteredWorkflow} {e : UserEvent} {name : String} {count : String → Nat}

namespace Store

/-- How many runs of a workflow of the tenant there are: tasks on their own, and runs on record. -/
def runsOf (s : Store) (tenant : TenantId) (name : String) : Nat :=
  s.tasks.countP (fun t => t.tenantId == tenant && t.dagId.isNone && t.displayName == name) +
    s.dags.countP fun r => r.dag.tenantId == tenant && r.workflowName == name

/-- The tenant has a workflow of the name, and events of the key trigger it. -/
def subscribes (s : Store) (tenant : TenantId) (name key : String) : Bool :=
  (s.workflow? tenant name).any (·.definition.eventTriggers.contains key)

/-- No task and no run has an id that is drawn on the way. -/
def Unclaimed (s : Store) (ids ids' : IdSource) : Prop :=
  ∀ k, ids.drawn < k → k ≤ ids'.drawn → s.isTaken (.generated k) = false

theorem Unclaimed.upTo {ids' ids₁ : IdSource} (unclaimed : s.Unclaimed ids ids')
    (upTo : ids₁.drawn ≤ ids'.drawn) : s.Unclaimed ids ids₁ :=
  fun k since drawn => unclaimed k since (Nat.le_trans drawn upTo)

theorem Grows.runsOf {new : List Task} {runs : List DagRecord} {id : ExternalId}
    (grows : Grows s s' new runs) (run : RunOf w id new runs) (owner : w.tenantId = tenant) :
    s'.runsOf tenant name = s.runsOf tenant name + if w.definition.name = name then 1 else 0 := by
  rw [Store.runsOf, Store.runsOf, grows.tasks, grows.dags, List.countP_append, List.countP_append]
  cases run with
  | single tenant' alone title named =>
    simp [tenant', alone, title, owner, List.countP_cons]
    omega
  | dag parts of named =>
    have none : new.countP (fun t => t.tenantId == tenant && t.dagId.isNone && t.displayName == name) =
        0 := by
      rw [List.countP_eq_zero]
      intro t ht
      simp [parts t ht]
    simp [none, of.tenant, of.name, owner, List.countP_cons]
    omega

end Store

/-- There is at most one workflow of the name, so what holds of it is counted once. -/
theorem Store.Catalogued.countP_eq {ws : List RegisteredWorkflow} (catalogued : Catalogued ws)
    (p : RegisteredWorkflow → Bool) :
    ws.countP (fun w => w.tenantId == tenant && w.definition.name == name && p w) =
      if (ws.find? fun w => w.tenantId == tenant && w.definition.name == name).any p then 1 else 0 := by
  have none {ws : List RegisteredWorkflow}
      (apart : ∀ u ∈ ws, ¬ (u.tenantId == tenant && u.definition.name == name) = true) :
      ws.countP (fun w => w.tenantId == tenant && w.definition.name == name && p w) = 0 := by
    rw [List.countP_eq_zero]
    intro u hu both
    exact apart u hu ((Bool.and_eq_true _ _).mp both).1
  cases found : ws.find? fun w => w.tenantId == tenant && w.definition.name == name with
  | none =>
    rw [none (List.find?_eq_none.mp found)]
    rfl
  | some v =>
    obtain ⟨fits, first, rest, rfl, earlier⟩ := List.find?_eq_some_iff_append.mp found
    -- The catalogue ascends strictly, so the name does not come again behind the first.
    have later : ∀ u ∈ rest, ¬ (u.tenantId == tenant && u.definition.name == name) = true := by
      intro u hu again
      obtain ⟨-, ordered, -⟩ := List.pairwise_append.mp catalogued.ordered
      have less := (List.pairwise_cons.mp ordered).1 u hu
      simp only [Bool.and_eq_true, beq_iff_eq] at fits again
      rw [RegisteredWorkflow.before_iff, fits.1, fits.2, again.1, again.2] at less
      rcases less with less | ⟨-, less⟩
      · exact Nat.lt_irrefl _ less
      · exact String.lt_irrefl _ less
    rw [List.countP_append, List.countP_cons, none later,
      none fun u hu fits => by simpa [fits] using earlier u hu, fits]
    simp

/-! ### Runs for events -/

/-- Runs were added for events of the tenant, so many for each name. Those on record have ids that were
drawn for them. -/
structure EventRuns (s : Store) (ids : IdSource) (tenant : TenantId) (c : Creation)
    (count : String → Nat) : Prop where
  made : Creation.Creates tenant [] { store := s, ids } c
  grows : ∃ new runs, Grows s c.store new runs
  dags : ∀ r ∈ c.store.dags, r ∈ s.dags ∨
    ∃ k, ids.drawn < k ∧ k ≤ c.ids.drawn ∧ r.dag.externalId = .generated k
  counted : ∀ name, c.store.runsOf tenant name = s.runsOf tenant name + count name

namespace EventRuns

theorem none (s : Store) (ids : IdSource) (tenant : TenantId) :
    EventRuns s ids tenant { store := s, ids } fun _ => 0 :=
  ⟨.none, ⟨[], [], .refl s⟩, fun _ => Or.inl, fun _ => rfl⟩

theorem claimed {id : ExternalId} (ran : EventRuns s ids tenant c count)
    (taken : c.store.isTaken id = true) :
    s.isTaken id = true ∨ ∃ k, ids.drawn < k ∧ k ≤ c.ids.drawn ∧ id = .generated k := by
  rw [isTaken, Bool.or_eq_true, List.any_eq_true, List.any_eq_true] at taken
  rcases taken with ⟨t, ht, same⟩ | ⟨r, hr, same⟩
  · obtain ⟨new, tasks, -, -, born⟩ := ran.made.tasks
    rw [tasks] at ht
    rcases List.mem_append.mp ht with old | young
    · refine Or.inl ?_
      rw [isTaken, Bool.or_eq_true, List.any_eq_true]
      exact Or.inl ⟨t, old, same⟩
    · rcases (born t young).externalId with named | ⟨k, since, upTo, drawn⟩
      · cases named
      · exact Or.inr ⟨k, since, upTo, (eq_of_beq same).symm.trans drawn⟩
  · rcases ran.dags r hr with old | ⟨k, since, upTo, drawn⟩
    · refine Or.inl ?_
      rw [isTaken, Bool.or_eq_true, List.any_eq_true, List.any_eq_true]
      exact Or.inr ⟨r, old, same⟩
    · exact Or.inr ⟨k, since, upTo, (eq_of_beq same).symm.trans drawn⟩

theorem addEventRun (ran : EventRuns s ids tenant c count)
    (steps : ∀ w ∈ s.workflows, w.definition.steps ≠ []) (known : w ∈ s.workflows)
    (owner : w.tenantId = tenant) (h : c.addEventRun w e now = .ok c')
    (unclaimed : s.Unclaimed ids c'.ids) :
    EventRuns s ids tenant c' fun name => count name + if w.definition.name = name then 1 else 0 := by
  have known' : w ∈ c.store.workflows := by
    rw [ran.made.terms.workflows]
    exact known
  have drawn : c.ids.drawn + 1 ≤ c'.ids.drawn := by
    have later : Creation.Creates tenant [c.ids.draw.1] { c with ids := c.ids.draw.2 } c' :=
      Creation.Creates.none.addRun known' owner (Or.inl List.mem_cons_self) h
    exact later.drawn
  have made := ran.made.addEventRun known' owner h
  -- The id is the next to be drawn: nobody had it at first, and the runs since have earlier ones.
  have free : c.store.isTaken c.ids.draw.1 = false := by
    rw [Bool.eq_false_iff]
    intro taken
    rcases ran.claimed taken with before | ⟨k, -, upTo, same⟩
    · have since : ids.drawn < c.ids.drawn + 1 := Nat.lt_succ_of_le ran.made.drawn
      cases (unclaimed _ since drawn).symm.trans before
    · have equal : c.ids.drawn + 1 = k := Identifier.generated_injective same
      omega
  rcases Creation.addRun_grows (steps w known) h with ⟨taken, -⟩ | ⟨-, new, runs, grows, run⟩
  · cases free.symm.trans taken
  · obtain ⟨new', runs', before⟩ := ran.grows
    refine ⟨made, ⟨_, _, before.trans grows⟩, fun r hr => ?_, fun name => ?_⟩
    · rw [grows.dags] at hr
      rcases List.mem_append.mp hr with old | young
      · refine (ran.dags r old).imp_right fun ⟨k, since, upTo, same⟩ => ⟨k, since, ?_, same⟩
        omega
      · refine Or.inr ⟨c.ids.drawn + 1, Nat.lt_succ_of_le ran.made.drawn, drawn, ?_⟩
        cases run with
        | single => cases young
        | dag _ _ named => exact List.mem_singleton.mp young ▸ named
    · have one : c'.store.runsOf tenant name = c.store.runsOf tenant name + _ :=
        grows.runsOf run owner
      rw [one, ran.counted, Nat.add_assoc]

theorem addEventRuns {ws : List RegisteredWorkflow} (ran : EventRuns s ids tenant c count)
    (steps : ∀ w ∈ s.workflows, w.definition.steps ≠ [])
    (own : ∀ w ∈ ws, w ∈ s.workflows ∧ w.tenantId = tenant)
    (h : ws.foldlM (fun c w => c.addEventRun w e now) c = .ok c')
    (unclaimed : s.Unclaimed ids c'.ids) :
    EventRuns s ids tenant c' fun name => count name + ws.countP (·.definition.name == name) := by
  induction ws generalizing c count with
  | nil =>
    cases h
    exact ran
  | cons w rest ih =>
    rw [List.foldlM_cons] at h
    obtain ⟨c₁, first, h⟩ := bind_ok h
    obtain ⟨⟨known, owner⟩, others⟩ := List.forall_mem_cons.mp own
    have made : Creation.Creates tenant [] { store := s, ids } c₁ :=
      ran.made.addEventRun (ran.made.terms.workflows ▸ known) owner first
    have later : Creation.Creates tenant [] c₁ c' := by
      refine foldlM_ok (P := fun c' => Creation.Creates tenant [] c₁ c') h .none ?_
      intro c₂ v hv c₃ before added
      refine before.addEventRun ?_ (others v hv).2 added
      rw [before.terms.workflows, made.terms.workflows]
      exact (others v hv).1
    have ran₁ := ran.addEventRun steps known owner first (unclaimed.upTo later.drawn)
    have all := ih ran₁ others h
    simpa only [List.countP_cons, beq_iff_eq, Nat.add_assoc, Nat.add_comm] using all

/-- A delivery of an event runs each workflow that it triggers once more. -/
theorem addEvent (ran : EventRuns s ids tenant c count)
    (steps : ∀ w ∈ s.workflows, w.definition.steps ≠ []) (catalogued : Catalogued s.workflows)
    (h : c.addEvent tenant now e = .ok c') (unclaimed : s.Unclaimed ids c'.ids) :
    EventRuns s ids tenant c' fun name =>
      count name + if s.subscribes tenant name e.key then 1 else 0 := by
  have same : c.store.workflows = s.workflows := ran.made.terms.workflows
  simp only [Creation.addEvent, same] at h
  have all := ran.addEventRuns steps (fun w hw => ?own) h unclaimed
  case own =>
    obtain ⟨listed, fits⟩ := List.mem_filter.mp hw
    exact ⟨listed, eq_of_beq ((Bool.and_eq_true _ _).mp fits).1⟩
  refine { all with counted := fun name => ?_ }
  have once : (s.workflows.filter fun w =>
      w.tenantId == tenant && w.definition.eventTriggers.contains e.key).countP
        (·.definition.name == name) = if s.subscribes tenant name e.key then 1 else 0 := by
    rw [List.countP_filter]
    refine .trans (List.countP_congr fun w _ => ?_)
      (catalogued.countP_eq fun w => w.definition.eventTriggers.contains e.key)
    simp only [Bool.and_eq_true]
    exact and_left_comm.trans and_assoc.symm
  rw [all.counted, once]

theorem addEvents {events : List UserEvent} (ran : EventRuns s ids tenant c count)
    (steps : ∀ w ∈ s.workflows, w.definition.steps ≠ []) (catalogued : Catalogued s.workflows)
    (h : events.foldlM (fun c e => c.addEvent tenant now e) c = .ok c')
    (unclaimed : s.Unclaimed ids c'.ids) :
    EventRuns s ids tenant c' fun name =>
      count name + events.countP fun e => s.subscribes tenant name e.key := by
  induction events generalizing c count with
  | nil =>
    cases h
    exact ran
  | cons e rest ih =>
    rw [List.foldlM_cons] at h
    obtain ⟨c₁, first, h⟩ := bind_ok h
    have later : Creation.Creates tenant [] c₁ c' :=
      foldlM_ok (P := fun c' => Creation.Creates tenant [] c₁ c') h .none
        fun _ _ _ _ before added => before.addEvent added
    have ran₁ := ran.addEvent steps catalogued first (unclaimed.upTo later.drawn)
    have all := ih ran₁ h
    simpa only [List.countP_cons, Nat.add_assoc, Nat.add_comm] using all

end EventRuns

theorem Store.triggerEvents_runs {events : List UserEvent} {evicted : List Attempt}
    (reached : Reachable evicted s) (h : s.triggerEvents ids now tenant events = .ok c)
    (unclaimed : s.Unclaimed ids c.ids) :
    EventRuns s ids tenant c fun name => events.countP fun e => s.subscribes tenant name e.key := by
  obtain ⟨_, _, h⟩ := bind_ok h
  have ran := (EventRuns.none s ids tenant).addEvents reached.steps reached.agenda.catalogued h unclaimed
  simpa only [Nat.zero_add] using ran

end WorkflowEngine
