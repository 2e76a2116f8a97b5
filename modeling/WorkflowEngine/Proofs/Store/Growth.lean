import WorkflowEngine.Proofs.Store.Records

/-!
How a store grows when tasks come into being. New tasks and runs stand behind the old ones, and what
there was stays. An order to run a workflow comes to one run, unless the external id is taken: a task on
its own, or a run on record with the tasks of its root steps.
-/

namespace WorkflowEngine

open Fallible Store

/-- A run of a workflow under an external id: the tasks and the records that it is made of. -/
inductive RunOf (w : RegisteredWorkflow) (id : ExternalId) : List Task → List DagRecord → Prop where
  | single {t : Task} (tenant : t.tenantId = w.tenantId) (alone : t.dagId = none)
      (title : t.displayName = w.definition.name) (named : t.externalId = id) : RunOf w id [t] []
  | dag {roots : List Task} {r : DagRecord} (parts : ∀ t ∈ roots, t.dagId = some r.dag.id)
      (of : r.Of w) (named : r.dag.externalId = id) : RunOf w id roots [r]

namespace Store

/-- Tasks and runs were added, and what there was stays. -/
structure Grows (s s' : Store) (new : List Task) (runs : List DagRecord) : Prop where
  partitions : s'.partitions = s.partitions
  workflows : s'.workflows = s.workflows
  tasks : s'.tasks = s.tasks ++ new
  dags : s'.dags = s.dags ++ runs
  children : ∀ child ∈ s.children, child ∈ s'.children

variable {s s' s'' : Store} {new later : List Task} {runs more : List DagRecord} {id : ExternalId}
  {w : RegisteredWorkflow} {step : Step} {n : NewTask} {now : Instant} {t : Task}
  {tenant : TenantId}

theorem Grows.refl (s : Store) : Grows s s [] [] :=
  ⟨rfl, rfl, (List.append_nil _).symm, (List.append_nil _).symm, fun _ => id⟩

theorem Grows.trans (first : Grows s s' new runs) (second : Grows s' s'' later more) :
    Grows s s'' (new ++ later) (runs ++ more) :=
  ⟨second.partitions.trans first.partitions, second.workflows.trans first.workflows,
    by rw [second.tasks, first.tasks, List.append_assoc],
    by rw [second.dags, first.dags, List.append_assoc],
    fun child known => second.children child (first.children child known)⟩

theorem Grows.isTaken (grows : Grows s s' new runs) (taken : s.isTaken id = true) :
    s'.isTaken id = true := by
  rw [Store.isTaken, Bool.or_eq_true] at taken ⊢
  rw [grows.tasks, grows.dags, List.any_append, List.any_append, Bool.or_eq_true, Bool.or_eq_true]
  exact taken.imp Or.inl Or.inl

theorem Grows.workflow? (grows : Grows s s' new runs) (name : String) :
    s'.workflow? tenant name = s.workflow? tenant name := by
  rw [Store.workflow?, grows.workflows, Store.workflow?]

theorem Grows.requirePartition (grows : Grows s s' new runs) :
    s'.requirePartition now = s.requirePartition now := by
  rw [Store.requirePartition, grows.partitions, Store.requirePartition]

theorem requirePartition_ok :
    s.requirePartition now = .ok () ↔ s.partitions.contains now.date = true := by
  simp [Store.requirePartition]

theorem Grows.isTaken_run (grows : Grows s s' new runs) (run : RunOf w id new runs) :
    s'.isTaken id = true := by
  rw [Store.isTaken, grows.tasks, grows.dags]
  cases run with
  | single _ _ _ named => simp [named]
  | dag _ _ named => simp [named]

/-- A workflow that was registered has a step. -/
theorem steps_of_agenda (sound : s.agenda.Sound) : ∀ w ∈ s.workflows, w.definition.steps ≠ [] := by
  intro w known none
  have valid := sound.catalogued.valid w known
  simp [Workflow.validate, Workflow.defect?, none] at valid

theorem Reachable.steps {evicted : List Attempt} (reached : Reachable evicted s) :
    ∀ w ∈ s.workflows, w.definition.steps ≠ [] :=
  steps_of_agenda reached.agenda

/-! ### Tasks -/

theorem enqueue_grows (s : Store) (t : Task) : Grows s (s.enqueue t) [] [] := by
  unfold enqueue
  split <;>
    exact ⟨rfl, rfl, (List.append_nil _).symm, (List.append_nil _).symm, fun _ => id⟩

theorem insertTask_grows (h : s.insertTask w step n now = .ok (t, s')) :
    Grows s s' [t] [] ∧ t.displayName = n.displayName := by
  have added (t : Task) : Grows s (s.addTask t) [t] [] :=
    ⟨rfl, rfl, rfl, (List.append_nil _).symm, fun _ => id⟩
  unfold insertTask at h
  generalize n.start step = initially at h
  obtain ⟨initial, reason, keys⟩ := initially
  simp only at h
  split at h
  · obtain ⟨deadline, _, h⟩ := bind_ok h
    cases h
    exact ⟨(added _).trans (enqueue_grows _ _), rfl⟩
  · obtain ⟨deadline, _, h⟩ := bind_ok h
    cases h
    exact ⟨added _, rfl⟩

end Store

namespace Creation

variable {c c' : Creation} {w : RegisteredWorkflow} {step : Step} {n : NewTask} {now : Instant}
  {r : RunRequest} {tenant : TenantId}

theorem addTask_grows (h : c.addTask w step n now = .ok c') :
    ∃ t, Grows c.store c'.store [t] [] ∧ t.part = n.part w step ∧ t.displayName = n.displayName := by
  obtain ⟨t, inserted, _, _⟩ := addTask_eq h
  obtain ⟨grows, title⟩ := insertTask_grows inserted
  exact ⟨t, grows, insertTask_part inserted, title⟩

/-! ### Runs -/

theorem addRoot_grows {dag : Dag} (h : c.addRoot w r dag step = .ok c') :
    ∃ t, Grows c.store c'.store [t] [] ∧ t.dagId = some dag.id := by
  simp only [addRoot, IdSource.draw] at h
  obtain ⟨t, grows, part, -⟩ := addTask_grows h
  exact ⟨t, grows, congrArg Part.dagId part⟩

theorem addRoots_grows {dag : Dag} {steps : List Step}
    (h : steps.foldlM (fun c step => c.addRoot w r dag step) c = .ok c') :
    ∃ roots, Grows c.store c'.store roots [] ∧ ∀ t ∈ roots, t.dagId = some dag.id := by
  refine foldlM_ok (P := fun c' => ∃ roots, Grows c.store c'.store roots [] ∧
    ∀ t ∈ roots, t.dagId = some dag.id) h ⟨[], .refl _, List.forall_mem_nil _⟩ ?_
  rintro c₁ step - c₂ ⟨roots, grows, own⟩ added
  obtain ⟨t, first, mine⟩ := addRoot_grows added
  refine ⟨roots ++ [t], grows.trans first, fun u hu => ?_⟩
  rcases List.mem_append.mp hu with old | new
  · exact own u old
  · rw [List.mem_singleton.mp new]
    exact mine

theorem addDag_grows (h : c.addDag w r now = .ok c') :
    ∃ new runs, Grows c.store c'.store new runs ∧ RunOf w r.externalId new runs := by
  obtain ⟨c₁, roots, h⟩ := bind_ok h
  cases h
  obtain ⟨new, grows, own⟩ := addRoots_grows roots
  refine ⟨new, [⟨_, w.definition.name⟩], ⟨grows.partitions, grows.workflows, grows.tasks, ?_,
    grows.children⟩, .dag own ⟨rfl, rfl, rfl⟩ rfl⟩
  exact grows.dags.trans (List.append_nil _)

theorem addSingle_grows (steps : w.definition.steps ≠ []) (h : c.addSingle w r now = .ok c') :
    ∃ new runs, Grows c.store c'.store new runs ∧ RunOf w r.externalId new runs := by
  unfold addSingle at h
  split at h
  · rename_i none
    exact absurd none steps
  · obtain ⟨t, grows, part, title⟩ := addTask_grows h
    exact ⟨[t], [], grows, .single (congrArg Part.tenantId part) (congrArg Part.dagId part) title
      (congrArg Part.externalId part)⟩

/-- An order is passed over if its external id is taken, and comes to a run otherwise. -/
theorem addRun_grows (steps : w.definition.steps ≠ []) (h : c.addRun w r now = .ok c') :
    (c.store.isTaken r.externalId = true ∧ c' = c) ∨ c.store.isTaken r.externalId = false ∧
      ∃ new runs, Grows c.store c'.store new runs ∧ RunOf w r.externalId new runs := by
  unfold addRun at h
  split at h
  · rename_i taken
    cases h
    exact Or.inl ⟨taken, rfl⟩
  · rename_i free
    refine Or.inr ⟨by simpa using free, ?_⟩
    split at h
    · exact addDag_grows h
    · exact addSingle_grows steps h

/-! ### Steps that waited -/

theorem addReady_grows {waiting : WaitingStep} (h : c.addReady tenant now waiting = .ok c') :
    ∃ new, Grows c.store c'.store new [] := by
  simp only [addReady, IdSource.draw] at h
  split at h
  · cases h
    exact ⟨[], .refl _⟩
  · obtain ⟨t, grows, -⟩ := addTask_grows h
    exact ⟨[t], grows⟩

end Creation

namespace Store

variable {s : Store} {c : Creation} {ids : IdSource} {now : Instant} {tenant : TenantId}

/-- Announcements start no run; they may come to tasks of those there are. -/
theorem matchOutcomes_grows {events : List OutcomeEvent}
    (h : s.matchOutcomes ids now tenant events = .ok c) : ∃ new, Grows s c.store new [] := by
  obtain ⟨_, _, h⟩ := bind_ok h
  refine foldlM_ok (P := fun c => ∃ new, Grows s c.store new []) h ⟨[], ?_⟩ ?_
  · change Grows s { s.noteAll tenant events with waiting := _ } [] []
    rw [noteAll_only]
    exact ⟨rfl, rfl, (List.append_nil _).symm, (List.append_nil _).symm, fun _ => id⟩
  · rintro c₁ x - c₂ ⟨new, grows⟩ added
    obtain ⟨later, more⟩ := Creation.addReady_grows added
    exact ⟨new ++ later, grows.trans more⟩

end Store

end WorkflowEngine
