import WorkflowEngine.Proofs.Store.Records
import WorkflowEngine.Proofs.Task.Outcome

/-!
In which order the steps of a run start. A step waits until it has heard of all its parents. If nothing
is announced but what became of tasks, then it starts after they have ended, once, and it starts out as
cancelled if and only if one of them did not complete. What is announced of tasks that have ended stays
true, so it does not matter when, how often and in which order a step hears of it.
-/

namespace WorkflowEngine

open Fallible Store

namespace Agenda

variable {told : Part → Outcome → Prop} {a b : Agenda} {lost : List WaitingStep} {p : Part}
  {o : ParentOutcome} {x : WaitingStep} {r : DagRecord} {w : RegisteredWorkflow} {d : DagId}

/-! ### One run -/

/-- What an advance may do to a run that there is, seen from this run alone. -/
inductive RunStep (told : Part → Outcome → Prop) (d : DagId) :
    List Part → List WaitingStep → List Part → List WaitingStep → Prop where
  | reordered {ps : List Part} {ws ws' : List WaitingStep} (same : ws.Perm ws') :
      RunStep told d ps ws ps ws'
  | heard {ps : List Part} {ws : List WaitingStep} {p : Part} {o : ParentOutcome}
      (run : p.dagId = some d) (said : told p o.outcome) (of : o.parent = p.step) :
      RunStep told d ps ws ps (ws.map (·.hear p o))
  | started {ps : List Part} {x : WaitingStep} {rest : List WaitingStep} {p : Part}
      (ready : x.isReady = true) (step : p.step = x.step)
      (cancelled : p.initialState = .cancelled ↔ ∃ o ∈ x.outcomes, o.outcome ≠ .completed) :
      RunStep told d ps (x :: rest) (ps ++ [p]) rest
  | abandoned {ps : List Part} {x : WaitingStep} {rest : List WaitingStep} :
      RunStep told d ps (x :: rest) ps rest

theorem Advance.runStep (step : Advance told a lost b) (sound : a.Sound) (known : r ∈ a.runs) :
    RunStep told r.dag.id (a.partsOf r.dag.id) (a.waitingOf r.dag.id) (b.partsOf r.dag.id)
      (b.waitingOf r.dag.id) := by
  have same : ∀ {b : Agenda}, b.partsOf r.dag.id = a.partsOf r.dag.id →
      b.waitingOf r.dag.id = a.waitingOf r.dag.id →
      RunStep told r.dag.id (a.partsOf r.dag.id) (a.waitingOf r.dag.id) (b.partsOf r.dag.id)
        (b.waitingOf r.dag.id) := by
    intro b parts waiting
    rw [parts, waiting]
    exact .reordered (.refl _)
  cases step with
  | alone single => exact same (by simp [partsOf, add, single]) rfl
  | @opened v r' roots _ _ next _ own =>
    have other : r'.dag.id ≠ r.dag.id := (sound.run_ne_next next known).symm
    exact same (parts_opened_other (fun p hp => (own p hp).2) other) (waiting_opened_other other)
  | @heard p o listed said of =>
    have waiting : ({ a with waiting := a.waiting.map (·.hear p o) } : Agenda).waitingOf r.dag.id =
        (a.waitingOf r.dag.id).map (·.hear p o) := by
      simp [waitingOf, List.filter_map, Function.comp_def]
    by_cases mine : p.dagId = some r.dag.id
    · rw [waiting]
      exact .heard mine said of
    · refine same rfl (waiting.trans ?_)
      refine (List.map_congr_left fun x hx => ?_).trans (List.map_id _)
      have run : x.dagId = r.dag.id := by simpa using (List.mem_filter.mp hx).2
      exact WaitingStep.hear_deaf fun awaits => mine (run ▸ (WaitingStep.awaits_iff.mp awaits).2.1)
  | reordered perm => exact .reordered (perm.filter _)
  | @started x rest p here ready _ _ run step cancelled =>
    by_cases mine : x.dagId = r.dag.id
    · have before : a.waitingOf r.dag.id = x :: rest.filter (·.dagId == r.dag.id) := by
        simp [waitingOf, here, mine]
      have parts : ({ a.add [p] with waiting := rest } : Agenda).partsOf r.dag.id =
          a.partsOf r.dag.id ++ [p] := by
        simp [partsOf, add, run, mine]
      rw [before, parts]
      exact .started ready step cancelled
    · exact same (by simp [partsOf, add, run, mine]) (by simp [waitingOf, here, mine])
  | @abandoned x rest here _ _ =>
    by_cases mine : x.dagId = r.dag.id
    · have before : a.waitingOf r.dag.id = x :: rest.filter (·.dagId == r.dag.id) := by
        simp [waitingOf, here, mine]
      rw [before]
      exact .abandoned
    · exact same rfl (by simp [waitingOf, here, mine])

/-! ### Order -/

/-- All parents of a step have ended, and its task says whether all of them completed. -/
structure Preceded (ended : String → Outcome → Prop) (parents : List String) (p : Part) : Prop where
  before : ∀ q ∈ parents, ∃ o, ended q o
  cancelled : p.initialState = .cancelled → ∃ q ∈ parents, ∃ o, ended q o ∧ o ≠ .completed
  completed : p.initialState ≠ .cancelled → ∀ q ∈ parents, ended q .completed

/-- The tasks and the waiting steps of a run of the workflow are different steps of it, those that wait
have heard nothing but how their parents ended, and the others were preceded by their parents. -/
structure Orderly (ended : String → Outcome → Prop) (w : Workflow) (ps : List Part)
    (ws : List WaitingStep) : Prop where
  distinct : (w.steps.map (·.readableId)).Nodup
  once : (ps.map (·.step) ++ ws.map (·.step)).Nodup
  waits : ∀ x ∈ ws, ∃ step ∈ w.steps, x.step = step.readableId ∧ x.parents = step.parents
  heard : ∀ x ∈ ws, ∀ o ∈ x.outcomes, o.parent ∈ x.parents ∧ ended o.parent o.outcome
  started : ∀ p ∈ ps, ∃ step ∈ w.steps, p.step = step.readableId ∧
    (step.parents ≠ [] → Preceded ended step.parents p)

variable {ended ended' : String → Outcome → Prop} {ps ps' : List Part} {ws ws' : List WaitingStep}
  {definition : Workflow}

theorem Orderly.mono (orderly : Orderly ended definition ps ws)
    (more : ∀ q o, ended q o → ended' q o) : Orderly ended' definition ps ws where
  distinct := orderly.distinct
  once := orderly.once
  waits := orderly.waits
  heard x hx o ho := (orderly.heard x hx o ho).imp_right (more _ _)
  started p hp := by
    obtain ⟨step, own, name, preceded⟩ := orderly.started p hp
    refine ⟨step, own, name, fun child => ?_⟩
    obtain ⟨before, cancelled, completed⟩ := preceded child
    refine ⟨fun q hq => (before q hq).imp fun o => more q o, fun state => ?_,
      fun state q hq => more q _ (completed state q hq)⟩
    obtain ⟨q, hq, o, ended, failed⟩ := cancelled state
    exact ⟨q, hq, o, more q o ended, failed⟩

/-- A step that has heard of all its parents can start. -/
theorem Orderly.preceded (orderly : Orderly ended definition ps (x :: ws)) (ready : x.isReady = true)
    (cancelled : p.initialState = .cancelled ↔ ∃ o ∈ x.outcomes, o.outcome ≠ .completed) :
    Preceded ended x.parents p := by
  have first : x ∈ x :: ws := List.mem_cons_self
  have word := WaitingStep.isReady_iff.mp ready
  refine ⟨fun q hq => ?_, fun state => ?_, fun state q hq => ?_⟩
  · obtain ⟨o, listed, rfl⟩ := word q hq
    exact ⟨o.outcome, (orderly.heard x first o listed).2⟩
  · obtain ⟨o, listed, failed⟩ := cancelled.mp state
    obtain ⟨parent, ended⟩ := orderly.heard x first o listed
    exact ⟨o.parent, parent, o.outcome, ended, failed⟩
  · obtain ⟨o, listed, rfl⟩ := word q hq
    have completed : o.outcome = .completed := by
      by_contra failed
      exact state (cancelled.mpr ⟨o, listed, failed⟩)
    exact completed ▸ (orderly.heard x first o listed).2

theorem RunStep.orderly (step : RunStep told d ps ws ps' ws')
    (said : ∀ p o, told p o → p.dagId = some d → ended p.step o)
    (orderly : Orderly ended definition ps ws) : Orderly ended definition ps' ws' := by
  cases step with
  | reordered same =>
    refine ⟨orderly.distinct, ?_, fun x hx => orderly.waits x (same.mem_iff.mpr hx),
      fun x hx => orderly.heard x (same.mem_iff.mpr hx), orderly.started⟩
    exact ((same.map _).append_left _).nodup_iff.mp orderly.once
  | @heard _ p o run told of =>
    refine ⟨orderly.distinct, ?_, fun y hy => ?_, fun y hy o' ho => ?_, orderly.started⟩
    · simpa [Function.comp_def] using orderly.once
    · obtain ⟨x, hx, rfl⟩ := List.mem_map.mp hy
      simpa using orderly.waits x hx
    · obtain ⟨x, hx, rfl⟩ := List.mem_map.mp hy
      rw [WaitingStep.hear_parents]
      rcases WaitingStep.mem_hear ho with old | ⟨rfl, awaits⟩
      · exact orderly.heard x hx o' old
      · rw [of]
        exact ⟨(WaitingStep.awaits_iff.mp awaits).2.2, said p _ told run⟩
  | @started x _ p ready name cancelled =>
    refine ⟨orderly.distinct, ?_, fun y hy => orderly.waits y (List.mem_cons_of_mem x hy),
      fun y hy => orderly.heard y (List.mem_cons_of_mem x hy), fun p' hp => ?_⟩
    · simpa [name] using orderly.once
    · rcases List.mem_append.mp hp with old | new
      · exact orderly.started p' old
      · obtain ⟨step, own, same, parents⟩ := orderly.waits x List.mem_cons_self
        rw [List.mem_singleton.mp new]
        refine ⟨step, own, name.trans same, fun _ => ?_⟩
        exact parents ▸ orderly.preceded ready cancelled
  | @abandoned x _ =>
    refine ⟨orderly.distinct, ?_, fun y hy => orderly.waits y (List.mem_cons_of_mem x hy),
      fun y hy => orderly.heard y (List.mem_cons_of_mem x hy), orderly.started⟩
    exact orderly.once.sublist ((List.sublist_cons_self _ _).append_left _)

theorem Advances.orderly (advances : Advances told a lost b) (sound : a.Sound) (known : r ∈ a.runs)
    (said : ∀ p o, told p o → p.dagId = some r.dag.id → ended p.step o)
    (orderly : Orderly ended definition (a.partsOf r.dag.id) (a.waitingOf r.dag.id)) :
    r ∈ b.runs ∧ Orderly ended definition (b.partsOf r.dag.id) (b.waitingOf r.dag.id) := by
  induction advances with
  | none => exact ⟨known, orderly⟩
  | more before step ih =>
    obtain ⟨known, orderly⟩ := ih
    exact ⟨step.runs known, (step.runStep (before.sound sound) known).orderly said orderly⟩

/-! ### New runs -/

/-- In a new run the root steps have tasks and all others wait. -/
theorem Orderly.opened {roots : List Part} (sound : a.Sound) (known : w ∈ a.workflows)
    (next : r.dag.id = a.lastRun + 1)
    (steps : roots.map (·.step) = w.definition.rootSteps.map (·.readableId))
    (own : ∀ p ∈ roots, p.tenantId = w.tenantId ∧ p.dagId = some r.dag.id) :
    let b : Agenda := { a.add roots with
      runs := a.runs ++ [r]
      waiting := a.waiting ++ w.definition.childSteps.map (.ofStep r)
      lastRun := r.dag.id }
    Orderly ended w.definition (b.partsOf r.dag.id) (b.waitingOf r.dag.id) := by
  intro b
  have distinct := (Workflow.validate_steps (sound.catalogued.valid w known)).1
  have parts : b.partsOf r.dag.id = roots := sound.parts_opened next fun p hp => (own p hp).2
  have waiting : b.waitingOf r.dag.id = w.definition.childSteps.map (.ofStep r) :=
    sound.waiting_opened next
  rw [parts, waiting]
  refine ⟨distinct, ?_, fun x hx => ?_, fun x hx o ho => ?_, fun p hp => ?_⟩
  · have names : (w.definition.rootSteps ++ w.definition.childSteps).map (·.readableId) |>.Nodup :=
      ((List.filter_append_perm _ _).map _).nodup_iff.mpr distinct
    rw [steps, List.map_map]
    simpa [WaitingStep.ofStep, Function.comp_def] using names
  · obtain ⟨step, child, rfl⟩ := List.mem_map.mp hx
    exact ⟨step, (List.mem_filter.mp child).1, rfl, rfl⟩
  · obtain ⟨step, _, rfl⟩ := List.mem_map.mp hx
    cases ho
  · have named : p.step ∈ w.definition.rootSteps.map (·.readableId) := steps ▸ List.mem_map_of_mem hp
    obtain ⟨step, root, name⟩ := List.mem_map.mp named
    obtain ⟨listed, first⟩ := List.mem_filter.mp root
    exact ⟨step, listed, name.symm, fun child => absurd (List.isEmpty_iff.mp first) child⟩

theorem Advance.orderly_new (step : Advance told a lost b) (sound : a.Sound) (new : r ∈ b.runs) :
    r ∈ a.runs ∨ ∃ w ∈ a.workflows, r.Of w ∧
      Orderly ended w.definition (b.partsOf r.dag.id) (b.waitingOf r.dag.id) := by
  cases step with
  | opened known of next steps own =>
    rcases List.mem_append.mp new with old | new
    · exact Or.inl old
    · obtain rfl := List.mem_singleton.mp new
      exact Or.inr ⟨_, known, of, .opened sound known next steps own⟩
  | alone | heard | reordered | started | abandoned => exact Or.inl new

theorem Advances.orderly_new (advances : Advances told a lost b) (sound : a.Sound)
    (said : ∀ p o, told p o → p.dagId = some r.dag.id → ended p.step o) (new : r ∈ b.runs) :
    r ∈ a.runs ∨ ∃ w ∈ a.workflows, r.Of w ∧
      Orderly ended w.definition (b.partsOf r.dag.id) (b.waitingOf r.dag.id) := by
  induction advances with
  | none => exact Or.inl new
  | more before step ih =>
    rcases step.orderly_new (before.sound sound) new with old | ⟨w, known, opened⟩
    · refine (ih old).imp_right fun ⟨w, known, of, orderly⟩ => ⟨w, known, of, ?_⟩
      exact (step.runStep (before.sound sound) old).orderly said orderly
    · exact Or.inr ⟨w, before.workflows ▸ known, opened⟩

end Agenda

/-! ### Commands -/

namespace Store

variable {s s' : Store} {t u : Task} {c : Command} {r : DagRecord} {w : RegisteredWorkflow} {d : DagId}
  {more : List Attempt}

/-- The task of a step of a run has ended so. -/
def Ended (s : Store) (d : DagId) (q : String) (o : Outcome) : Prop :=
  ∃ t ∈ s.tasks, t.dagId = some d ∧ t.stepReadableId = q ∧ t.state.outcome? = some o

/-- What the command tells of tasks is how they have ended. -/
def Honest (s : Store) (c : Command) : Prop :=
  ∀ p o, s.Tells c p o → ∀ d, p.dagId = some d → s.Ended d p.step o

theorem Ended.kept {q : String} {o : Outcome} (ended : s.Ended d q o) (sound : s.Sound)
    (done : s.obey c = .ok (more, s')) : s'.Ended d q o := by
  obtain ⟨t, ht, run, step, outcome⟩ := ended
  refine ⟨t, ?_, run, step, outcome⟩
  rw [← obeyAll_single] at done
  exact (obeyAll_final sound ht (TaskState.outcome?_terminal outcome) done).2

/-- The tasks and the waiting steps of the run are in order. -/
def Orders (s : Store) (r : DagRecord) (w : Workflow) : Prop :=
  Agenda.Orderly (s.Ended r.dag.id) w (s.agenda.partsOf r.dag.id) (s.agenda.waitingOf r.dag.id)

/-- Of honest commands each run that there is stays in order, and each new one is of a workflow that was
registered. -/
theorem obey_orders (sound : s.Sound) (orderly : s.agenda.Sound) (honest : s.Honest c)
    (done : s.obey c = .ok (more, s')) (known : r ∈ s'.dags) :
    (r ∈ s.dags ∧ ∀ w, s.Orders r w → s'.Orders r w) ∨
      (r ∉ s.dags ∧ ∃ w, s.workflow? r.dag.tenantId r.workflowName = some w ∧
        s'.Orders r w.definition) := by
  have kept := fun q o (ended : s.Ended r.dag.id q o) => ended.kept sound done
  rcases obey_agenda sound done with ⟨_, _, _, _, agenda⟩ | advances
  · have runs : s'.dags = s.dags := congrArg Agenda.runs agenda
    refine Or.inl ⟨runs ▸ known, fun w orders => ?_⟩
    rw [Orders, agenda]
    exact orders.mono kept
  · have said := fun p o told (run : p.dagId = some r.dag.id) => honest p o told _ run
    by_cases old : r ∈ s.dags
    · refine Or.inl ⟨old, fun w orders => ?_⟩
      exact (advances.orderly orderly old said orders).2.mono kept
    · obtain ⟨w, registered, of, orders⟩ := (advances.orderly_new orderly said known).resolve_left old
      refine Or.inr ⟨old, w, ?_, orders.mono kept⟩
      have found := orderly.catalogued.find_eq registered
      rwa [← of.tenant, ← of.name] at found

/-! ### Tasks -/

/-- The tasks of the run are of different steps of the workflow. A step with parents has a task only if
the tasks of all of them have ended, and it starts out as cancelled just if one of these has failed or was
cancelled. -/
structure InOrder (s : Store) (d : DagId) (w : Workflow) : Prop where
  own : ∀ t ∈ s.tasks, t.dagId = some d → t.stepReadableId ∈ w.steps.map (·.readableId)
  once : ((s.tasks.filter (·.dagId == some d)).map (·.stepReadableId)).Nodup
  after : ∀ step ∈ w.steps, step.parents ≠ [] → ∀ t ∈ s.tasks, t.dagId = some d →
    t.stepReadableId = step.readableId →
      (∀ q ∈ step.parents, ∃ u ∈ s.tasks, u.dagId = some d ∧ u.stepReadableId = q ∧
        u.state.isTerminal = true) ∧
      (t.initialState = .cancelled ↔ ∃ u ∈ s.tasks, u.dagId = some d ∧
        u.stepReadableId ∈ step.parents ∧ (u.state = .failed ∨ u.state = .cancelled))

variable {definition : Workflow}

theorem Orders.steps_nodup (orders : s.Orders r definition) :
    ((s.tasks.filter (·.dagId == some r.dag.id)).map (·.stepReadableId)).Nodup := by
  have parts : s.agenda.partsOf r.dag.id =
      (s.tasks.filter (·.dagId == some r.dag.id)).map Task.part := by
    rw [Agenda.partsOf, agenda, List.filter_map]
    rfl
  have nodup := (List.nodup_append.mp orders.once).1
  rwa [parts, List.map_map] at nodup

theorem Orders.task_unique (orders : s.Orders r definition) (ht : t ∈ s.tasks) (hu : u ∈ s.tasks)
    (run : t.dagId = some r.dag.id) (run' : u.dagId = some r.dag.id)
    (same : t.stepReadableId = u.stepReadableId) : t = u := by
  refine List.inj_on_of_nodup_map orders.steps_nodup ?_ ?_ same
  · exact List.mem_filter.mpr ⟨ht, by simpa using run⟩
  · exact List.mem_filter.mpr ⟨hu, by simpa using run'⟩

theorem Orders.started (orders : s.Orders r definition) (ht : t ∈ s.tasks)
    (run : t.dagId = some r.dag.id) : ∃ step ∈ definition.steps, t.stepReadableId = step.readableId ∧
      (step.parents ≠ [] → Agenda.Preceded (s.Ended r.dag.id) step.parents t.part) := by
  refine Agenda.Orderly.started orders t.part (List.mem_filter.mpr ⟨List.mem_map_of_mem ht, ?_⟩)
  simpa [Task.part] using run

theorem Orders.inOrder (orders : s.Orders r definition) : s.InOrder r.dag.id definition := by
  refine ⟨fun t ht run => ?_, orders.steps_nodup, fun step own child t ht run name => ?_⟩
  · obtain ⟨step, own, name, _⟩ := orders.started ht run
    exact List.mem_map.mpr ⟨step, own, name.symm⟩
  · obtain ⟨same, own', name', preceded⟩ := orders.started ht run
    obtain rfl := List.inj_on_of_nodup_map orders.distinct own own' (name.symm.trans name')
    obtain ⟨before, cancelled, completed⟩ := preceded child
    refine ⟨fun q hq => ?_, fun state => ?_, ?_⟩
    · obtain ⟨o, u, hu, run', at_, outcome⟩ := before q hq
      exact ⟨u, hu, run', at_, TaskState.outcome?_terminal outcome⟩
    · obtain ⟨q, hq, o, ⟨u, hu, run', rfl, outcome⟩, failed⟩ := cancelled state
      exact ⟨u, hu, run', hq, (TaskState.outcome?_ne_completed outcome).mp failed⟩
    · rintro ⟨u, hu, run', parent, failed⟩
      by_contra state
      -- The parent has one task, so it cannot have completed and failed.
      obtain ⟨v, hv, run'', at_, outcome⟩ := completed state _ parent
      rw [orders.task_unique hv hu run'' run' at_] at outcome
      exact (TaskState.outcome?_ne_completed outcome).mpr failed rfl

end Store

end WorkflowEngine
