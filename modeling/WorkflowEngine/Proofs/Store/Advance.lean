import WorkflowEngine.Proofs.Store.Waiting

/-!
How runs go on. A run is opened with the tasks of its root steps, while its other steps wait. A step
that waits hears of its parents one by one. Once it has heard of all of them it waits no more: its
task is created, or it is given up if its workflow has been registered anew without it. Whatever
creates tasks comes down to a sequence of such advances.
-/

namespace WorkflowEngine

open Fallible Store

/-- The record is of a run of the workflow. -/
structure DagRecord.Of (r : DagRecord) (w : RegisteredWorkflow) : Prop where
  tenant : r.dag.tenantId = w.tenantId
  name : r.workflowName = w.definition.name
  total : r.dag.totalTasks = w.definition.steps.length

namespace Agenda

/-- The workflow of the run that a step belongs to, as it is registered now. -/
def workflow? (a : Agenda) (x : WaitingStep) : Option RegisteredWorkflow := do
  let r ← a.runs.find? (·.dag.id == x.dagId)
  a.workflows.find? fun w => w.tenantId == x.tenantId && w.definition.name == r.workflowName

def defines (a : Agenda) (x : WaitingStep) : Bool :=
  (a.workflow? x).any fun w => (w.definition.step? x.step).isSome

def add (a : Agenda) (parts : List Part) : Agenda := { a with parts := a.parts ++ parts }

theorem add_add (a : Agenda) (ps qs : List Part) : (a.add ps).add qs = a.add (ps ++ qs) := by
  simp [add]

/-- One advance, with the steps that are given up by it. Steps hear what is told of the tasks. -/
inductive Advance (told : Part → Outcome → Prop) : Agenda → List WaitingStep → Agenda → Prop where
  | alone {a : Agenda} {p : Part} (single : p.dagId = none) :
      Advance told a [] (a.add [p])
  | opened {a : Agenda} {w : RegisteredWorkflow} {r : DagRecord} {roots : List Part}
      (known : w ∈ a.workflows) (of : r.Of w) (next : r.dag.id = a.lastRun + 1)
      (steps : roots.map (·.step) = w.definition.rootSteps.map (·.readableId))
      (own : ∀ p ∈ roots, p.tenantId = w.tenantId ∧ p.dagId = some r.dag.id) :
      Advance told a [] { a.add roots with
        runs := a.runs ++ [r]
        waiting := a.waiting ++ w.definition.childSteps.map (.ofStep r)
        lastRun := r.dag.id }
  | heard {a : Agenda} {p : Part} {o : ParentOutcome} (known : p ∈ a.parts)
      (said : told p o.outcome) (of : o.parent = p.step) :
      Advance told a [] { a with waiting := a.waiting.map (·.hear p o) }
  | reordered {a : Agenda} {waiting : List WaitingStep} (same : a.waiting.Perm waiting) :
      Advance told a [] { a with waiting }
  | started {a : Agenda} {x : WaitingStep} {rest : List WaitingStep} {p : Part}
      (here : a.waiting = x :: rest) (ready : x.isReady = true) (defined : a.defines x = true)
      (tenant : p.tenantId = x.tenantId) (run : p.dagId = some x.dagId) (step : p.step = x.step)
      (cancelled : p.initialState = .cancelled ↔ ∃ o ∈ x.outcomes, o.outcome ≠ .completed) :
      Advance told a [] { a.add [p] with waiting := rest }
  | abandoned {a : Agenda} {x : WaitingStep} {rest : List WaitingStep} (here : a.waiting = x :: rest)
      (ready : x.isReady = true) (undefined : a.defines x = false) :
      Advance told a [x] { a with waiting := rest }

/-- Advances in sequence, with all the steps that are given up. -/
inductive Advances (told : Part → Outcome → Prop) : Agenda → List WaitingStep → Agenda → Prop where
  | none (a : Agenda) : Advances told a [] a
  | more {a b c : Agenda} {earlier lost : List WaitingStep} (before : Advances told a earlier b)
      (step : Advance told b lost c) : Advances told a (earlier ++ lost) c

variable {told : Part → Outcome → Prop} {a b c : Agenda} {lost later : List WaitingStep}

theorem Advances.one (step : Advance told a lost b) : Advances told a lost b := .more (.none a) step

theorem Advances.trans (first : Advances told a lost b) (second : Advances told b later c) :
    Advances told a (lost ++ later) c := by
  induction second with
  | none =>
    rw [List.append_nil]
    exact first
  | more _ step ih =>
    rw [← List.append_assoc]
    exact .more ih step

theorem Advance.workflows (step : Advance told a lost b) : b.workflows = a.workflows := by
  cases step <;> rfl

theorem Advance.runs (step : Advance told a lost b) : a.runs ⊆ b.runs := by
  cases step with
  | opened => exact List.subset_append_left _ _
  | alone | heard | reordered | started | abandoned => exact List.Subset.refl _

theorem Advances.workflows (advances : Advances told a lost b) : b.workflows = a.workflows := by
  induction advances with
  | none => rfl
  | more _ step ih => exact step.workflows.trans ih

end Agenda

/-! ### New tasks -/

/-- The part of a new task of a step. -/
def NewTask.part (n : NewTask) (w : RegisteredWorkflow) (step : Step) : Part where
  tenantId := w.tenantId
  externalId := n.externalId
  dagId := n.dag.map (·.1)
  step := step.readableId
  initialState := (n.start step).1

theorem NewTask.start_cancelled {n : NewTask} {step : Step} :
    (n.start step).1 = .cancelled ↔ ∃ p ∈ n.forced, p.1 = .cancelled := by
  unfold start
  cases n.forced with
  | some p => simp
  | none =>
    simp only [Option.not_mem_none, false_and, exists_false, iff_false]
    split
    · simp
    · split <;> simp

variable {s s' : Store} {c c' : Creation} {w : RegisteredWorkflow} {step : Step} {n : NewTask}
  {t : Task} {now : Instant} {tenant : TenantId} {r : RunRequest}
  {told : Part → Outcome → Prop}

theorem Store.insertTask_part (h : s.insertTask w step n now = .ok (t, s')) :
    t.part = n.part w step := by
  unfold insertTask at h
  generalize start : n.start step = initially at h
  obtain ⟨initial, reason, keys⟩ := initially
  simp only at h
  split at h
  all_goals
    obtain ⟨deadline, _, h⟩ := bind_ok h
    cases h
    simp [Task.part, NewTask.part, start]

theorem Store.insertTask_agenda (free : ∀ p ∈ n.forced, p.1 ≠ .queued)
    (h : s.insertTask w step n now = .ok (t, s')) : s'.agenda = s.agenda.add [n.part w step] := by
  have added : (s.addTask t).agenda = s.agenda.add [n.part w step] := by
    rw [← insertTask_part h]
    simp [agenda, Store.addTask, Agenda.add]
  obtain ⟨_, ⟨_, rfl⟩ | ⟨_, rfl⟩⟩ := insertTask_ok free h
  · rw [enqueue_agenda, added]
  · exact added

namespace Creation

theorem addTask_agenda (free : ∀ p ∈ n.forced, p.1 ≠ .queued)
    (h : c.addTask w step n now = .ok c') :
    c'.store.agenda = c.store.agenda.add [n.part w step] := by
  obtain ⟨t, inserted, _, _⟩ := addTask_eq h
  exact insertTask_agenda free inserted

/-! ### Runs -/

theorem addRoot_agenda {dag : Dag} (h : c.addRoot w r dag step = .ok c') :
    ∃ p, c'.store.agenda = c.store.agenda.add [p] ∧ p.step = step.readableId ∧
      p.tenantId = w.tenantId ∧ p.dagId = some dag.id := by
  simp only [addRoot, IdSource.draw] at h
  have added := addTask_agenda (by simp) h
  exact ⟨_, added, rfl, rfl, rfl⟩

theorem addRoots_agenda {dag : Dag} {steps : List Step}
    (h : steps.foldlM (fun c step => c.addRoot w r dag step) c = .ok c') :
    ∃ roots, c'.store.agenda = c.store.agenda.add roots ∧
      roots.map (·.step) = steps.map (·.readableId) ∧
        ∀ p ∈ roots, p.tenantId = w.tenantId ∧ p.dagId = some dag.id := by
  induction steps generalizing c with
  | nil =>
    cases h
    exact ⟨[], by simp [Agenda.add], rfl, by simp⟩
  | cons step rest ih =>
    rw [List.foldlM_cons] at h
    obtain ⟨c₁, added, h⟩ := bind_ok h
    obtain ⟨p, first, name, mine⟩ := addRoot_agenda added
    obtain ⟨roots, agenda, steps, own⟩ := ih h
    refine ⟨p :: roots, ?_, by rw [List.map_cons, List.map_cons, name, steps], ?_⟩
    · rw [agenda, first, Agenda.add_add]
      rfl
    · exact List.forall_mem_cons.mpr ⟨mine, own⟩

theorem addDag_advances (known : w ∈ c.store.workflows) (h : c.addDag w r now = .ok c') :
    Agenda.Advances told c.store.agenda [] c'.store.agenda := by
  obtain ⟨c₁, added, h⟩ := bind_ok h
  cases h
  obtain ⟨roots, agenda, steps, own⟩ := addRoots_agenda added
  simp only [Store.agenda, Agenda.add, Agenda.mk.injEq] at agenda
  obtain ⟨workflows, parts, runs, waiting, last⟩ := agenda
  have opened : Agenda.Advance told c.store.agenda [] _ :=
    .opened (r := ⟨_, w.definition.name⟩) known ⟨rfl, rfl, rfl⟩ rfl steps own
  refine .one ?_
  simp only [Store.agenda, Agenda.add, workflows, parts, runs, waiting, last] at opened ⊢
  exact opened

theorem addSingle_advances (h : c.addSingle w r now = .ok c') :
    Agenda.Advances told c.store.agenda [] c'.store.agenda := by
  unfold addSingle at h
  split at h
  · cases h
    exact .none _
  · have added := addTask_agenda (by simp) h
    rw [added]
    exact .one (.alone rfl)

theorem addRun_advances (known : w ∈ c.store.workflows) (h : c.addRun w r now = .ok c') :
    Agenda.Advances told c.store.agenda [] c'.store.agenda := by
  unfold addRun at h
  split at h
  · cases h
    exact .none _
  · split at h
    · exact addDag_advances known h
    · exact addSingle_advances h

/-! ### Triggers -/

theorem addEvent_advances {e : UserEvent} (h : c.addEvent tenant now e = .ok c') :
    Agenda.Advances told c.store.agenda [] c'.store.agenda := by
  refine foldlM_ok (P := fun c' => Agenda.Advances told c.store.agenda [] c'.store.agenda) h
    (.none _) ?_
  intro c₁ w matching c₂ before added
  have known : w ∈ c₁.store.workflows := by
    change w ∈ c₁.store.agenda.workflows
    rw [before.workflows]
    exact (List.mem_filter.mp matching).1
  exact before.trans (addRun_advances (c := { c₁ with ids := c₁.ids.draw.2 }) known added)

theorem addRequest_advances (h : c.addRequest tenant now r = .ok c') :
    Agenda.Advances told c.store.agenda [] c'.store.agenda := by
  unfold addRequest at h
  split at h
  · cases h
    exact .none _
  · rename_i w found
    have known : w ∈ c.store.workflows := (workflow?_mem found).1
    split at h
    · exact addRun_advances known h
    · split at h
      · cases h
        exact .none _
      · obtain ⟨c₁, added, h⟩ := bind_ok h
        cases h
        have advances : Agenda.Advances told c.store.agenda [] c₁.store.agenda :=
          addRun_advances known added
        exact advances

end Creation

/-! ### Steps that waited -/

namespace Store

theorem taskByExternalId?_mem {id : ExternalId} (found : s.taskByExternalId? id = some t) :
    t ∈ s.tasks ∧ t.externalId = id := by
  rw [taskByExternalId?, List.findRev?_eq_find?_reverse] at found
  refine ⟨List.mem_reverse.mp (List.mem_of_find?_eq_some found), ?_⟩
  simpa using List.find?_some found

/-- The word that an announcement brings: of its task, if the tenant has one of that external id. -/
def word? (s : Store) (tenant : TenantId) (e : OutcomeEvent) : Option WaitingStep.Word := do
  let (outcome, id) ← Outcome.ofKey? e.key
  let t ← (s.taskByExternalId? id).filter (·.tenantId == tenant)
  let output := match outcome with
    | .completed => (e.data.get? "output").getD .null
    | .failed | .cancelled => .null
  return (t.part, ⟨t.stepReadableId, outcome, output⟩)

theorem noteOutcome_word (s : Store) (tenant : TenantId) (e : OutcomeEvent) :
    s.noteOutcome tenant e =
      { s with waiting := s.waiting.map (·.hearAll (s.word? tenant e).toList) } := by
  have silent : { s with waiting := s.waiting.map (·.hearAll []) } = s := by
    simp [WaitingStep.hearAll]
  unfold noteOutcome word?
  cases Outcome.ofKey? e.key with
  | none => exact silent.symm
  | some named =>
    obtain ⟨outcome, id⟩ := named
    cases found : (s.taskByExternalId? id).filter (·.tenantId == tenant) with
    | none => simpa [found] using silent.symm
    | some t =>
      have owner : t.tenantId = tenant := by simpa using (Option.filter_eq_some_iff.mp found).2
      cases run : t.dagId with
      | none =>
        have deaf (x : WaitingStep) (o : ParentOutcome) : x.hear t.part o = x :=
          WaitingStep.hear_deaf (by simp [WaitingStep.awaits, Task.part, run])
        simp [found, run, WaitingStep.hearAll, deaf]
      | some dagId =>
        subst owner
        have same (x : WaitingStep) : x.awaits t.part = (x.tenantId == t.tenantId &&
            x.dagId == dagId && x.parents.contains t.stepReadableId) := by
          simp [WaitingStep.awaits, Task.part, run, BEq.comm (a := dagId)]
        cases outcome <;> simp [found, run, WaitingStep.hearAll, WaitingStep.hear, same]

/-- The announcement of an outcome reaches the steps that wait for its task. -/
theorem noteOutcome_heard {e : OutcomeEvent} {outcome : Outcome}
    (read : Outcome.ofKey? e.key = some (outcome, t.externalId))
    (found : s.taskByExternalId? t.externalId = some t) :
    ∃ o : ParentOutcome, o.parent = t.stepReadableId ∧ o.outcome = outcome ∧
      (s.noteOutcome t.tenantId e).agenda =
        { s.agenda with waiting := s.waiting.map (·.hear t.part o) } := by
  obtain ⟨output, word⟩ : ∃ output,
      s.word? t.tenantId e = some (t.part, ⟨t.stepReadableId, outcome, output⟩) := by
    simp [word?, read, found, Option.filter_some]
  refine ⟨⟨t.stepReadableId, outcome, output⟩, rfl, rfl, ?_⟩
  rw [noteOutcome_word, word]
  rfl

/-- An announcement that is of no task of the tenant reaches no step. -/
theorem noteOutcome_agenda (s : Store) (tenant : TenantId) (e : OutcomeEvent) :
    (s.noteOutcome tenant e).agenda = s.agenda ∨ ∃ t ∈ s.tasks, ∃ o : ParentOutcome,
      t.tenantId = tenant ∧ Outcome.ofKey? e.key = some (o.outcome, t.externalId) ∧
      o.parent = t.stepReadableId ∧ (s.noteOutcome tenant e).agenda =
        { s.agenda with waiting := s.waiting.map (·.hear t.part o) } := by
  cases read : Outcome.ofKey? e.key with
  | none => exact Or.inl (by simp only [noteOutcome, read])
  | some named =>
    obtain ⟨outcome, id⟩ := named
    cases found : s.taskByExternalId? id with
    | none => exact Or.inl (by simp only [noteOutcome, read, found, Option.filter_none])
    | some t =>
      by_cases owner : t.tenantId = tenant
      · obtain ⟨listed, rfl⟩ := taskByExternalId?_mem found
        subst owner
        obtain ⟨o, of, rfl, agenda⟩ := noteOutcome_heard read found
        exact Or.inr ⟨t, listed, o, rfl, rfl, of, agenda⟩
      · have foreign : (some t).filter (·.tenantId == tenant) = none := by simp [owner]
        exact Or.inl (by simp only [noteOutcome, read, found, foreign])

theorem noteOutcome_only (s : Store) (tenant : TenantId) (e : OutcomeEvent) :
    s.noteOutcome tenant e = { s with waiting := (s.noteOutcome tenant e).waiting } := by
  rw [noteOutcome_word]

/-- What a list of announcements tells of the tasks of a store. -/
def Conveys (s : Store) (tenant : TenantId) (events : List OutcomeEvent) (p : Part) (o : Outcome) :
    Prop :=
  p ∈ s.agenda.parts ∧ p.tenantId = tenant ∧
    ∃ e ∈ events, Outcome.ofKey? e.key = some (o, p.externalId)

/-- The store after the announcements have reached the steps that wait. -/
def noteAll (s : Store) (tenant : TenantId) (events : List OutcomeEvent) : Store :=
  events.foldl (fun s e => s.noteOutcome tenant e) s

theorem noteAll_only (s : Store) (tenant : TenantId) (events : List OutcomeEvent) :
    s.noteAll tenant events = { s with waiting := (s.noteAll tenant events).waiting } := by
  induction events generalizing s with
  | nil => rfl
  | cons e rest ih =>
    refine (ih (s.noteOutcome tenant e)).trans ?_
    change _ = { s with waiting := ((s.noteOutcome tenant e).noteAll tenant rest).waiting }
    rw [noteOutcome_only]

theorem noteAll_advances {events : List OutcomeEvent}
    (said : ∀ p o, s.Conveys tenant events p o → told p o) :
    Agenda.Advances told s.agenda [] (s.noteAll tenant events).agenda := by
  induction events generalizing s with
  | nil => exact .none _
  | cons e rest ih =>
    have kept : (s.noteOutcome tenant e).agenda.parts = s.agenda.parts := by
      rw [noteOutcome_only]
      rfl
    have first : Agenda.Advances told s.agenda [] (s.noteOutcome tenant e).agenda := by
      rcases s.noteOutcome_agenda tenant e with same | ⟨t, listed, o, owner, read, of, agenda⟩
      · rw [same]
        exact .none _
      · have part : t.part ∈ s.agenda.parts := List.mem_map_of_mem listed
        rw [agenda]
        exact .one (.heard part (said _ _ ⟨part, owner, e, List.mem_cons_self, read⟩) of)
    refine first.trans (ih fun p o conveyed => ?_)
    obtain ⟨part, owner, e', later, read⟩ := conveyed
    exact said p o ⟨kept ▸ part, owner, e', List.mem_cons_of_mem _ later, read⟩

end Store

namespace Creation

variable {x : WaitingStep}

theorem addReady_agenda (owner : x.tenantId = tenant) (h : c.addReady tenant now x = .ok c') :
    (c.store.agenda.defines x = false ∧ c' = c) ∨ (c.store.agenda.defines x = true ∧
      ∃ p, c'.store.agenda = c.store.agenda.add [p] ∧ p.tenantId = x.tenantId ∧
        p.dagId = some x.dagId ∧ p.step = x.step ∧
          (p.initialState = .cancelled ↔ ∃ o ∈ x.outcomes, o.outcome ≠ .completed)) := by
  subst owner
  have workflow : c.store.agenda.workflow? x = (c.store.dag? x.dagId).bind fun record =>
      c.store.workflow? x.tenantId record.workflowName := rfl
  simp only [addReady] at h
  split at h
  · rename_i missing
    cases h
    refine Or.inl ⟨?_, rfl⟩
    rw [Agenda.defines, workflow]
    cases found : c.store.dag? x.dagId with
    | none => rfl
    | some record =>
      cases known : c.store.workflow? x.tenantId record.workflowName with
      | none => simp [known]
      | some w =>
        have absent : w.definition.step? x.step = none := by
          rw [Option.eq_none_iff_forall_ne_some]
          simpa [found, known] using missing
        simp [known, absent]
  · rename_i dag w step found
    obtain ⟨record, run, found⟩ := Option.bind_eq_some_iff.mp found
    obtain ⟨w', known, found⟩ := Option.bind_eq_some_iff.mp found
    obtain ⟨step', own, found⟩ := Option.bind_eq_some_iff.mp found
    cases found
    have added := addTask_agenda ?free h
    refine Or.inr ⟨?_, _, added, (workflow?_mem known).2.1, ?_, ?_, ?_⟩
    case free =>
      intro p blocked
      obtain ⟨o, _, rfl⟩ := Option.map_eq_some_iff.mp blocked
      simp
    · simp [Agenda.defines, workflow, run, known, own]
    · have same : record.dag.id = x.dagId := by simpa using List.find?_some run
      exact congrArg some same
    · have named : step.readableId = x.step := by simpa using List.find?_some own
      exact named
    · rw [NewTask.part, NewTask.start_cancelled]
      constructor
      · rintro ⟨p, blocked, _⟩
        obtain ⟨o, found, _⟩ := Option.map_eq_some_iff.mp blocked
        exact ⟨o, List.mem_of_find?_eq_some found, by simpa using List.find?_some found⟩
      · rintro ⟨o, listed, failed⟩
        have some : (x.outcomes.find? (·.outcome != .completed)).isSome = true := by
          rw [List.find?_isSome]
          exact ⟨o, listed, by simpa using failed⟩
        obtain ⟨first, found⟩ := Option.isSome_iff_exists.mp some
        exact ⟨_, Option.map_eq_some_iff.mpr ⟨first, found, rfl⟩, rfl⟩

theorem addAllReady_advances {ready waiting : List WaitingStep}
    (mine : ∀ x ∈ ready, x.tenantId = tenant ∧ x.isReady = true) (rest : c.store.waiting = waiting)
    (h : ready.foldlM (fun c x => c.addReady tenant now x) c = .ok c') :
    Agenda.Advances told { c.store.agenda with waiting := ready ++ waiting }
        (ready.filter fun x => !c.store.agenda.defines x) c'.store.agenda ∧
      c'.store.waiting = waiting := by
  induction ready generalizing c with
  | nil =>
    cases h
    rw [← rest]
    exact ⟨.none _, rfl⟩
  | cons x others ih =>
    rw [List.foldlM_cons] at h
    obtain ⟨c₁, added, later⟩ := bind_ok h
    obtain ⟨owner, ready⟩ := mine x List.mem_cons_self
    have mine := fun y hy => mine y (List.mem_cons_of_mem x hy)
    let before : Agenda := { c.store.agenda with waiting := x :: (others ++ waiting) }
    rcases addReady_agenda owner added with ⟨undefined, rfl⟩ | ⟨defined, p, agenda, part⟩
    · rw [List.filter_cons_of_pos (by simpa using undefined)]
      have first : Agenda.Advance told before [x] { before with waiting := others ++ waiting } :=
        .abandoned rfl ready undefined
      exact (ih mine rest later).imp_left (Agenda.Advances.one first).trans
    · obtain ⟨owner, run, step, cancelled⟩ := part
      rw [List.filter_cons_of_neg (by simpa using defined)]
      have first : Agenda.Advance told before []
          { before.add [p] with waiting := others ++ waiting } :=
        .started rfl ready defined owner run step cancelled
      have same : c₁.store.waiting = waiting := by
        rw [← rest]
        exact congrArg Agenda.waiting agenda
      have more := ih mine same later
      rw [agenda] at more
      exact more.imp_left (Agenda.Advances.one first).trans

end Creation

/-! ### Commands -/

namespace Store

variable {more : List Attempt} {cmd : Command}

/-- The steps that have heard of all their parents once the announcements have reached them. -/
def readied (s : Store) (tenant : TenantId) (events : List OutcomeEvent) : List WaitingStep :=
  (s.noteAll tenant events).waiting.filter fun x => x.tenantId == tenant && x.isReady

theorem matchOutcomes_advances {ids : IdSource} {events : List OutcomeEvent}
    (h : s.matchOutcomes ids now tenant events = .ok c) :
    Agenda.Advances (s.Conveys tenant events) s.agenda
        ((s.readied tenant events).filter fun x => !s.agenda.defines x) c.store.agenda ∧
      c.store.waiting = (s.noteAll tenant events).waiting.filter fun x =>
        !(x.tenantId == tenant && x.isReady) := by
  obtain ⟨_, _, h⟩ := bind_ok h
  simp only [List.partition_eq_filter_filter] at h
  have noted : Agenda.Advances (s.Conveys tenant events) s.agenda [] (s.noteAll tenant events).agenda :=
    noteAll_advances fun _ _ => id
  have sorted : (s.noteAll tenant events).waiting.Perm (s.readied tenant events ++
      (s.noteAll tenant events).waiting.filter fun x => !(x.tenantId == tenant && x.isReady)) :=
    (List.filter_append_perm _ _).symm
  have mine : ∀ x ∈ s.readied tenant events, x.tenantId = tenant ∧ x.isReady = true := by
    intro x member
    simpa using (List.mem_filter.mp member).2
  obtain ⟨added, waiting⟩ : Agenda.Advances (s.Conveys tenant events) _ _ _ ∧ c.store.waiting = _ :=
    Creation.addAllReady_advances mine rfl h
  have defines : ∀ x, (s.noteAll tenant events).agenda.defines x = s.agenda.defines x := by
    intro x
    rw [noteAll_only]
    rfl
  refine ⟨(noted.trans (.one (.reordered sorted))).trans ?_, waiting⟩
  simp only [← defines]
  exact added

/-- The steps that a command gives up. -/
def abandoned (s : Store) : Command → List WaitingStep
  | .matchOutcomes _ _ tenant events =>
    (s.readied tenant events).filter fun x => !s.agenda.defines x
  | _ => []

/-- What a command tells of the tasks of a store. -/
def Tells (s : Store) : Command → Part → Outcome → Prop
  | .matchOutcomes _ _ tenant events => s.Conveys tenant events
  | _ => fun _ _ => False

/-- A command registers a workflow, or runs go on by it. -/
theorem obey_agenda (sound : s.Sound) (done : s.obey cmd = .ok (more, s')) :
    (∃ owner w, cmd = .registerWorkflow owner w ∧ w.validate = .ok () ∧ s'.agenda = { s.agenda with
      workflows := Ascending.put RegisteredWorkflow.before (s.entryOf owner w) s.workflows }) ∨
    Agenda.Advances (s.Tells cmd) s.agenda (s.abandoned cmd) s'.agenda := by
  by_cases routine : cmd.isRoutine = true
  · rw [routine_agenda routine sound done]
    cases cmd with
    | triggerEvents | triggerRuns | matchOutcomes | registerWorkflow => cases routine
    | _ => exact Or.inr (.none _)
  · cases cmd with
    | registerWorkflow owner w =>
      obtain ⟨_, valid, done⟩ := bind_ok done
      cases done
      exact Or.inl ⟨owner, w, rfl, valid, rfl⟩
    | triggerEvents ids now tenant events =>
      obtain ⟨c, triggered, done⟩ := bind_ok done
      cases done
      obtain ⟨_, _, triggered⟩ := bind_ok triggered
      refine Or.inr (foldlM_ok (P := fun c => Agenda.Advances _ s.agenda [] c.store.agenda)
        triggered (.none _) ?_)
      exact fun _ _ _ _ before added => before.trans (Creation.addEvent_advances added)
    | triggerRuns ids now tenant requests =>
      obtain ⟨c, triggered, done⟩ := bind_ok done
      cases done
      obtain ⟨_, _, triggered⟩ := bind_ok triggered
      refine Or.inr (foldlM_ok (P := fun c => Agenda.Advances _ s.agenda [] c.store.agenda)
        triggered (.none _) ?_)
      exact fun _ _ _ _ before added => before.trans (Creation.addRequest_advances added)
    | matchOutcomes ids now tenant events =>
      obtain ⟨c, matched, done⟩ := bind_ok done
      cases done
      exact Or.inr (matchOutcomes_advances matched).1
    | _ => exact absurd rfl routine

end Store

end WorkflowEngine
