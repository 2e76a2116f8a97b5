import WorkflowEngine.Guarded
import WorkflowEngine.Proofs.Store.Holdings

/-!
Calls for a tenant. Whatever ids and keys a call is made with, the rows of all other tenants stay as
they are, and the answer names only tasks, runs and strategies of the tenant that the call is for.
-/

namespace WorkflowEngine

open Fallible Store

/-! ### Creation -/

namespace Creation

variable {tenant : TenantId} {parents : List TaskId} {c c' c'' : Creation} {w : RegisteredWorkflow}
  {step : Step} {n : NewTask} {r : RunRequest} {now : Instant} {ids : IdSource}

/-- New tasks name as their parent only one of those that are given. -/
def Parented (parents : List TaskId) (c c' : Creation) : Prop :=
  ∀ t ∈ c'.tasks, t ∈ c.tasks ∨ ∀ i ∈ t.parentTaskId, i ∈ parents

theorem Parented.trans (first : Parented parents c c') (second : Parented parents c' c'') :
    Parented parents c c'' :=
  fun t ht => (second t ht).elim (first t) Or.inr

/-- What is added for a tenant beside tasks: runs of the tenant, and steps of it that wait. -/
structure Extends (tenant : TenantId) (parents : List TaskId) (c c' : Creation) : Prop where
  runs : ∃ runs, c'.store.dags = c.store.dags ++ runs ∧ c'.dags = c.dags ++ runs.map (·.dag) ∧
    ∀ r ∈ runs, r.dag.tenantId = tenant
  waiting : ∃ steps, c'.store.waiting = c.store.waiting ++ steps ∧ ∀ x ∈ steps, x.tenantId = tenant
  parented : Parented parents c c'

/-- Nothing is added beside tasks. -/
structure OnlyTasks (parents : List TaskId) (c c' : Creation) : Prop where
  runs : c'.store.dags = c.store.dags
  listed : c'.dags = c.dags
  waiting : c'.store.waiting = c.store.waiting
  parented : Parented parents c c'

theorem OnlyTasks.extends (only : OnlyTasks parents c c') : Extends tenant parents c c' :=
  ⟨⟨[], by simp [only.runs, only.listed]⟩, ⟨[], by simp [only.waiting]⟩, only.parented⟩

theorem OnlyTasks.refl (parents : List TaskId) (c : Creation) : OnlyTasks parents c c :=
  ⟨rfl, rfl, rfl, fun _ => Or.inl⟩

theorem OnlyTasks.trans (first : OnlyTasks parents c c') (second : OnlyTasks parents c' c'') :
    OnlyTasks parents c c'' :=
  ⟨second.runs.trans first.runs, second.listed.trans first.listed,
    second.waiting.trans first.waiting, first.parented.trans second.parented⟩

theorem Extends.trans (first : Extends tenant parents c c') (second : Extends tenant parents c' c'') :
    Extends tenant parents c c'' := by
  obtain ⟨⟨runs, stored, listed, own⟩, ⟨steps, waiting, mine⟩, old⟩ := first
  obtain ⟨⟨runs', stored', listed', own'⟩, ⟨steps', waiting', mine'⟩, new⟩ := second
  refine ⟨⟨runs ++ runs', ?_, ?_, ?_⟩, ⟨steps ++ steps', ?_, ?_⟩, old.trans new⟩
  · rw [stored', stored, List.append_assoc]
  · rw [listed', listed, List.map_append, List.append_assoc]
  · exact fun r hr => (List.mem_append.mp hr).elim (own r) (own' r)
  · rw [waiting', waiting, List.append_assoc]
  · exact fun x hx => (List.mem_append.mp hx).elim (mine x) (mine' x)

/-- Drawing ids before adds nothing. -/
theorem Extends.drawn (later : Extends tenant parents { c with ids } c') :
    Extends tenant parents c c' :=
  ⟨later.runs, later.waiting, later.parented⟩

theorem insertTask_parent {s s' : Store} {t : Task} (h : s.insertTask w step n now = .ok (t, s')) :
    t.parentTaskId = n.parentTaskId := by
  unfold Store.insertTask at h
  generalize n.start step = initially at h
  obtain ⟨initial, reason, keys⟩ := initially
  simp only at h
  split at h
  all_goals
    obtain ⟨deadline, _, h⟩ := bind_ok h
    cases h
    rfl

theorem addTask_onlyTasks (free : ∀ p ∈ n.forced, p.1 ≠ .queued)
    (parent : ∀ i ∈ n.parentTaskId, i ∈ parents) (h : c.addTask w step n now = .ok c') :
    OnlyTasks parents c c' := by
  have agenda := addTask_agenda free h
  obtain ⟨⟨t, store⟩, inserted, h⟩ := bind_ok h
  cases h
  refine ⟨congrArg Agenda.runs agenda, rfl, congrArg Agenda.waiting agenda, fun u hu => ?_⟩
  refine (List.mem_append.mp hu).imp id fun new => ?_
  rw [List.mem_singleton.mp new, insertTask_parent inserted]
  exact parent

section
variable (owner : w.tenantId = tenant) (parent : ∀ i ∈ r.parentTaskId, i ∈ parents)
include owner parent

theorem addDag_extends (h : c.addDag w r now = .ok c') : Extends tenant parents c c' := by
  obtain ⟨c₁, roots, h⟩ := bind_ok h
  cases h
  have only := foldlM_ok (P := OnlyTasks parents _) roots (.refl _ _) fun c₁ step _ c₂ before root =>
    before.trans (by
      have added := addTask_onlyTasks (by simp) parent root
      exact ⟨added.runs, added.listed, added.waiting, added.parented⟩)
  refine ⟨⟨[_], only.runs, ?_, ?_⟩, ⟨_, congrArg (· ++ _) only.waiting, ?_⟩, only.parented⟩
  · rw [only.listed]
    rfl
  · exact List.forall_mem_singleton.mpr owner
  · intro x hx
    obtain ⟨step, _, rfl⟩ := List.mem_map.mp hx
    exact owner

theorem addRun_extends (h : c.addRun w r now = .ok c') : Extends tenant parents c c' := by
  unfold addRun at h
  split at h
  · cases h
    exact (OnlyTasks.refl parents c).extends
  · split at h
    · exact addDag_extends owner parent h
    · unfold addSingle at h
      split at h
      · cases h
        exact (OnlyTasks.refl parents c).extends
      · exact (addTask_onlyTasks (by simp) parent h).extends

end

theorem addEvent_extends {e : UserEvent} (h : c.addEvent tenant now e = .ok c') :
    Extends tenant parents c c' := by
  refine foldlM_ok (P := Extends tenant parents c) h (OnlyTasks.refl parents c).extends ?_
  intro c₁ w matching c₂ before added
  obtain ⟨owner, -⟩ := (Bool.and_eq_true _ _).mp (List.mem_filter.mp matching).2
  exact before.trans (addRun_extends (eq_of_beq owner) (by simp) added).drawn

theorem addRequest_extends (parent : ∀ i ∈ r.parentTaskId, i ∈ parents)
    (h : c.addRequest tenant now r = .ok c') : Extends tenant parents c c' := by
  unfold addRequest at h
  split at h
  · cases h
    exact (OnlyTasks.refl parents c).extends
  · rename_i w found
    have owner := workflow?_tenant found
    split at h
    · exact addRun_extends owner parent h
    · split at h
      · cases h
        exact (OnlyTasks.refl parents c).extends
      · obtain ⟨c₁, added, h⟩ := bind_ok h
        cases h
        obtain ⟨runs, waiting, parented⟩ := addRun_extends owner parent added
        exact ⟨runs, waiting, parented⟩

theorem addReady_extends {x : WaitingStep} (h : c.addReady tenant now x = .ok c') :
    Extends tenant parents c c' := by
  simp only [addReady] at h
  split at h
  · cases h
    exact (OnlyTasks.refl parents c).extends
  · refine (addTask_onlyTasks ?_ (by simp) h).extends.drawn
    intro p blocked
    obtain ⟨o, _, rfl⟩ := Option.map_eq_some_iff.mp blocked
    simp

end Creation

namespace Store

variable {s : Store} {tenant : TenantId} {now : Instant} {ids : IdSource} {c : Creation}

theorem triggerEvents_extends {events : List UserEvent}
    (h : s.triggerEvents ids now tenant events = .ok c) :
    Creation.Extends tenant [] { store := s, ids } c := by
  obtain ⟨_, _, h⟩ := bind_ok h
  exact foldlM_ok (P := Creation.Extends tenant [] _) h (Creation.OnlyTasks.refl [] _).extends
    fun _ _ _ _ before added => before.trans (Creation.addEvent_extends added)

theorem triggerRuns_extends {requests : List RunRequest}
    (h : s.triggerRuns ids now tenant requests = .ok c) :
    Creation.Extends tenant (requests.filterMap (·.parentTaskId)) { store := s, ids } c := by
  obtain ⟨_, _, h⟩ := bind_ok h
  refine foldlM_ok (P := Creation.Extends tenant _ _) h (Creation.OnlyTasks.refl _ _).extends ?_
  intro c₁ r member c₂ before added
  refine before.trans (Creation.addRequest_extends (fun i given => ?_) added)
  exact List.mem_filterMap.mpr ⟨r, member, given⟩

/-- Steps of other tenants hear nothing of an announcement. -/
theorem noteAll_spares (s : Store) (tenant : TenantId) (events : List OutcomeEvent) :
    foreign (·.tenantId) tenant (s.noteAll tenant events).waiting =
      foreign (·.tenantId) tenant s.waiting := by
  induction events generalizing s with
  | nil => rfl
  | cons e rest ih =>
    refine (ih (s.noteOutcome tenant e)).trans ?_
    unfold noteOutcome
    split
    · rfl
    · split
      · rfl
      · split
        · rfl
        · refine foreign_map fun x _ => ?_
          dsimp only
          split
          · rename_i listens
            simp only [Bool.and_eq_true, beq_iff_eq] at listens
            exact Or.inr ⟨listens.1.1, listens.1.1⟩
          · exact Or.inl rfl

/-- The runs of other tenants are as before, and so are their steps that wait. -/
theorem matchOutcomes_extends {events : List OutcomeEvent}
    (h : s.matchOutcomes ids now tenant events = .ok c) :
    ∃ rest, foreign (·.tenantId) tenant rest = foreign (·.tenantId) tenant s.waiting ∧
      Creation.Extends tenant [] { store := { s with waiting := rest }, ids } c := by
  obtain ⟨_, _, h⟩ := bind_ok h
  simp only [List.partition_eq_filter_filter] at h
  refine ⟨(s.noteAll tenant events).waiting.filter fun x => !(x.tenantId == tenant && x.isReady), ?_, ?_⟩
  · refine (foreign_filter fun x _ ready => ?_).trans (noteAll_spares s tenant events)
    simp only [Bool.not_eq_false', Bool.and_eq_true, beq_iff_eq] at ready
    exact ready.1
  · have noted := noteAll_only s tenant events
    unfold noteAll at noted
    rw [noted] at h
    exact foldlM_ok (P := Creation.Extends tenant [] _) h (Creation.OnlyTasks.refl [] _).extends
      fun _ _ _ _ before added => before.trans (Creation.addReady_extends added)

end Store

/-! ### Calls and answers -/

/-- What a store can be asked to do for a tenant. -/
inductive Call where
  | registerWorkflow (w : Workflow)
  | triggerEvents (ids : IdSource) (now : Instant) (events : List UserEvent)
  | triggerRuns (ids : IdSource) (now : Instant) (requests : List RunRequest)
  | matchOutcomes (ids : IdSource) (now : Instant) (events : List OutcomeEvent)
  | complete (attempts : List Attempt)
  | fail (now : Instant) (failures : List Failure)
  | cancel (attempts : List Attempt)
  | assign (now : Instant) (assignments : List Assignment)
  | runStrategy (strategy : Strategy)
  | refreshActive (strategy : StrategyId)

inductive Answer where
  | registered (strategies : List Strategy)
  | created (tasks : List Task) (dags : List Dag)
  | released (tasks : List ReleasedTask)
  | failed (result : FailureResult)
  | assigned (attempts : List Attempt)
  | decided (summary : Admission.Summary)
  | noted (hasSlots : Bool)

namespace Call

def command (tenant : TenantId) : Call → Command
  | registerWorkflow w => .registerWorkflow tenant w
  | triggerEvents ids now events => .triggerEvents ids now tenant events
  | triggerRuns ids now requests => .triggerRuns ids now tenant requests
  | matchOutcomes ids now events => .matchOutcomes ids now tenant events
  | complete attempts => .complete tenant attempts
  | fail now failures => .fail now tenant failures
  | cancel attempts => .cancel tenant attempts
  | assign now assignments => .assign now tenant assignments
  | runStrategy strategy => .runStrategy tenant strategy
  | refreshActive strategy => .refreshActive tenant strategy

/-- The tasks that the call gives as parents of those to be created. -/
def parents : Call → List TaskId
  | triggerRuns _ _ requests => requests.filterMap (·.parentTaskId)
  | _ => []

end Call

namespace Answer

/-- The tasks that are named, as such or by an attempt. -/
def tasks : Answer → List TaskId
  | created ts _ => ts.map (·.id)
  | released ts => ts.map (·.id)
  | failed r => r.released.map (·.id) ++ r.retried.flatMap fun t => [t.id, t.failedAttempt.id]
  | assigned attempts => attempts.map (·.id)
  | decided summary => (summary.queued ++ summary.cancelled).map (·.task.id)
  | registered _ | noted _ => []

def dags : Answer → List DagId
  | created ts ds => ts.filterMap (·.dagId) ++ ds.map (·.id)
  | _ => []

def strategies : Answer → List StrategyId
  | registered ss => ss.map (·.id)
  | created ts _ => ts.flatMap (·.concurrencyStrategyIds)
  | released ts => ts.flatMap (·.concurrencyStrategyIds)
  | failed r => r.released.flatMap (·.concurrencyStrategyIds) ++
      r.retried.flatMap (·.concurrencyStrategyIds)
  | decided summary => summary.nextStrategyIds
  | assigned _ | noted _ => []

/-- The tenants of the rows that are handed out. -/
def owners : Answer → List TenantId
  | registered ss => ss.map (·.tenantId)
  | created ts ds => ts.map (·.tenantId) ++ ds.map (·.tenantId)
  | _ => []

def parents : Answer → List TaskId
  | created ts _ => ts.filterMap (·.parentTaskId)
  | _ => []

/-- All that the answer names is the tenant's, parents of tasks apart. -/
structure Of (tenant : TenantId) (s : Store) (a : Answer) : Prop where
  tasks : ∀ i ∈ a.tasks, ∃ t, s.task? i = some t ∧ t.tenantId = tenant
  dags : ∀ d ∈ a.dags, ∃ r, s.dag? d = some r ∧ r.dag.tenantId = tenant
  strategies : ∀ σ ∈ a.strategies, ∃ x, s.strategy? σ = some x ∧ x.tenantId = tenant
  owners : ∀ owner ∈ a.owners, owner = tenant

end Answer

namespace Store

variable {s s' : Store} {tenant : TenantId} {call : Call} {answer : Answer} {evicted : List Attempt}

/-- Carries out a call for a tenant. -/
def heed (s : Store) (tenant : TenantId) : Call → Except Fault (Answer × Store)
  | .registerWorkflow w => do
    w.validate
    let (strategies, s) := s.registerWorkflow tenant w
    return (.registered strategies, s)
  | .triggerEvents ids now events => do
    let c ← s.triggerEvents ids now tenant events
    return (.created c.tasks c.dags, c.store)
  | .triggerRuns ids now requests => do
    let c ← s.triggerRuns ids now tenant requests
    return (.created c.tasks c.dags, c.store)
  | .matchOutcomes ids now events => do
    let c ← s.matchOutcomes ids now tenant events
    return (.created c.tasks c.dags, c.store)
  | .complete attempts =>
    let (released, s) := s.complete tenant attempts
    .ok (.released released, s)
  | .fail now failures => do
    let (result, s) ← s.fail now tenant failures
    return (.failed result, s)
  | .cancel attempts =>
    let (released, s) := s.cancel tenant attempts
    .ok (.released released, s)
  | .assign now assignments => do
    let (attempts, s) ← s.assign now tenant assignments
    return (.assigned attempts, s)
  | .runStrategy strategy =>
    let (summary, s) := s.runStrategy tenant strategy
    .ok (.decided summary, s)
  | .refreshActive strategy =>
    let (hasSlots, s) := s.refreshActive tenant strategy
    .ok (.noted hasSlots, s)

theorem heed_obeys (done : s.heed tenant call = .ok (answer, s')) :
    ∃ more, s.obey (call.command tenant) = .ok (more, s') := by
  cases call with
  | registerWorkflow w =>
    obtain ⟨_, valid, done⟩ := bind_ok done
    cases done
    refine ⟨[], ?_⟩
    rw [Call.command, obey, valid]
    rfl
  | triggerEvents | triggerRuns | matchOutcomes =>
    obtain ⟨c, created, done⟩ := bind_ok done
    cases done
    exact ⟨[], by simp [obey, Call.command, created, bind, Except.bind, pure, Except.pure]⟩
  | fail | assign =>
    obtain ⟨_, did, done⟩ := bind_ok done
    cases done
    exact ⟨[], by simp [obey, Call.command, did, bind, Except.bind, pure, Except.pure]⟩
  | complete | cancel | runStrategy | refreshActive =>
    cases done
    exact ⟨_, rfl⟩

theorem Sound.task?_of (sound : s.Sound) {i : TaskId} (has : ∃ t ∈ s.tasks, t.id = i ∧ t.tenantId = tenant) :
    ∃ t, s.task? i = some t ∧ t.tenantId = tenant := by
  obtain ⟨t, ht, rfl, owner⟩ := has
  exact ⟨t, sound.ordered.task?_eq ht, owner⟩

theorem Registry.strategy?_of (registry : s.Registry) {σ : StrategyId} (offered : s.Offers tenant σ) :
    ∃ x, s.strategy? σ = some x ∧ x.tenantId = tenant := by
  have own := registry.ownStrategy offered
  obtain ⟨x, hx, rfl, _⟩ := offered
  cases found : s.strategy? x.id with
  | none =>
    have absent := List.find?_eq_none.mp found x hx
    simp at absent
  | some y =>
    have id : y.id = x.id := by simpa using List.find?_some found
    exact ⟨y, rfl, own y (List.mem_of_find?_eq_some found) id⟩

/-- An answer that names tasks with strategies and nothing else. -/
theorem Sound.answer_of (sound : s.Sound) (rows : List (TaskId × List StrategyId))
    (has : ∀ row ∈ rows, s.Has tenant row.1 row.2)
    (tasks : ∀ i ∈ answer.tasks, ∃ row ∈ rows, row.1 = i)
    (strategies : ∀ σ ∈ answer.strategies, ∃ row ∈ rows, σ ∈ row.2) (dags : answer.dags = [])
    (owners : answer.owners = []) : answer.Of tenant s := by
  refine ⟨fun i member => ?_, by simp [dags], fun σ member => ?_, by simp [owners]⟩
  · obtain ⟨row, listed, rfl⟩ := tasks i member
    exact sound.task?_of (has row listed).task
  · obtain ⟨row, listed, named⟩ := strategies σ member
    exact sound.registry.strategy?_of ((has row listed).strategies σ named)

/-! ### Each call stays within its tenant -/

theorem released_of {ts : List ReleasedTask} (sound : s.Sound)
    (has : ∀ x ∈ ts, s.Has tenant x.id x.concurrencyStrategyIds) :
    (Answer.released ts).Of tenant s := by
  refine sound.answer_of (ts.map fun x => (x.id, x.concurrencyStrategyIds)) ?_ ?_ ?_ rfl rfl
  · simpa using has
  · simp [Answer.tasks]
  · simp [Answer.strategies]

theorem failed_of {r : FailureResult} (sound : s.Sound)
    (has : ∀ row ∈ failureRows r, s.Has tenant row.1 row.2) : (Answer.failed r).Of tenant s := by
  refine sound.answer_of _ has ?_ ?_ rfl rfl
  · simp only [Answer.tasks, failureRows, List.mem_append, List.mem_map, List.mem_flatMap]
    rintro i (⟨t, ht, rfl⟩ | ⟨t, ht, named⟩)
    · exact ⟨(t.id, t.concurrencyStrategyIds), ⟨.released t, by simp [ht], by simp [FailureOutcome.rows]⟩, rfl⟩
    · rcases List.mem_pair.mp named with rfl | rfl
      · exact ⟨(t.id, t.concurrencyStrategyIds), ⟨.retried t, by simp [ht], by simp [FailureOutcome.rows]⟩, rfl⟩
      · exact ⟨(t.failedAttempt.id, []), ⟨.retried t, by simp [ht], by simp [FailureOutcome.rows]⟩, rfl⟩
  · simp only [Answer.strategies, failureRows, List.mem_append, List.mem_flatMap]
    rintro σ (⟨t, ht, named⟩ | ⟨t, ht, named⟩)
    · exact ⟨(t.id, t.concurrencyStrategyIds), ⟨.released t, by simp [ht], by simp [FailureOutcome.rows]⟩, named⟩
    · exact ⟨(t.id, t.concurrencyStrategyIds), ⟨.retried t, by simp [ht], by simp [FailureOutcome.rows]⟩, named⟩

/-- Tasks and runs that are created are the tenant's, and so is all that they name. -/
theorem created_of {c : Creation} {ids : IdSource} {named : List ExternalId} {parents : List TaskId}
    {s₀ : Store} (made : Creation.Creates tenant named { store := s, ids } c)
    (added : Creation.Extends tenant parents { store := s₀, ids } c)
    (reached : Reachable evicted c.store) :
    (Answer.created c.tasks c.dags).Of tenant c.store ∧
      ∀ i ∈ (Answer.created c.tasks c.dags).parents, i ∈ parents := by
  have sound := reached.sound
  obtain ⟨new, stored, listed, _, born⟩ := made.tasks
  obtain ⟨⟨runs, storedRuns, listedRuns, own⟩, _, parented⟩ := added
  have task {t : Task} (ht : t ∈ c.tasks) : t ∈ c.store.tasks ∧ t.tenantId = tenant := by
    rw [show c.tasks = new from listed] at ht
    exact ⟨stored ▸ List.mem_append_right _ ht, (born t ht).tenant⟩
  have run {r : DagRecord} (hr : r ∈ c.store.dags) (owner : r.dag.tenantId = tenant) :
      ∃ r', c.store.dag? r.dag.id = some r' ∧ r'.dag.tenantId = tenant :=
    ⟨r, reached.agenda.find_run hr, owner⟩
  have opened {d : Dag} (hd : d ∈ c.dags) : ∃ r ∈ c.store.dags, r.dag = d ∧ r.dag.tenantId = tenant := by
    rw [show c.dags = runs.map (·.dag) from listedRuns] at hd
    obtain ⟨r, hr, rfl⟩ := List.mem_map.mp hd
    exact ⟨r, storedRuns ▸ List.mem_append_right _ hr, rfl, own r hr⟩
  refine ⟨⟨fun i member => ?_, fun d member => ?_, fun σ member => ?_, fun owner member => ?_⟩,
    fun i member => ?_⟩
  · obtain ⟨t, ht, rfl⟩ := List.mem_map.mp member
    exact ⟨t, sound.ordered.task?_eq (task ht).1, (task ht).2⟩
  · rcases List.mem_append.mp member with of | listed
    · obtain ⟨t, ht, of⟩ := List.mem_filterMap.mp of
      obtain ⟨r, hr, rfl, owner⟩ := reached.ownRuns t.part (List.mem_map_of_mem (task ht).1) d of
      exact run hr (owner.trans (task ht).2)
    · obtain ⟨d, hd, rfl⟩ := List.mem_map.mp listed
      obtain ⟨r, hr, rfl, owner⟩ := opened hd
      exact run hr owner
  · obtain ⟨t, ht, named⟩ := List.mem_flatMap.mp member
    rw [← (task ht).2]
    exact sound.registry.strategy?_of ((sound.wired t (task ht).1).offered σ named)
  · rcases List.mem_append.mp member with of | listed
    · obtain ⟨t, ht, rfl⟩ := List.mem_map.mp of
      exact (task ht).2
    · obtain ⟨d, hd, rfl⟩ := List.mem_map.mp listed
      obtain ⟨r, _, rfl, owner⟩ := opened hd
      exact owner
  · obtain ⟨t, ht, parent⟩ := List.mem_filterMap.mp member
    exact (parented t ht).elim (fun old => by cases old) fun given => given i parent

/-- What is created spares other tenants, if the steps that wait are those of before but for some of
the tenant. -/
theorem created_spares {c : Creation} {ids : IdSource} {named : List ExternalId} {parents : List TaskId}
    {rest : List WaitingStep} (sound : s.Sound)
    (made : Creation.Creates tenant named { store := s, ids } c)
    (same : foreign (·.tenantId) tenant rest = foreign (·.tenantId) tenant s.waiting)
    (added : Creation.Extends tenant parents { store := { s with waiting := rest }, ids } c) :
    Spares tenant s c.store := by
  obtain ⟨⟨runs, stored, _, own⟩, ⟨steps, waiting, mine⟩, _⟩ := added
  refine { made.sparesPlaces sound with
    workflows := congrArg _ made.terms.workflows, dags := ?_, waiting := ?_ }
  · rw [stored]
    exact foreign_append own
  · rw [waiting, foreign_append mine]
    exact same

/-- A call that changes neither workflows nor runs. -/
theorem SparesPlaces.whole (places : SparesPlaces tenant s s') (agenda : s'.agenda = s.agenda) :
    Spares tenant s s' :=
  { places with
    workflows := congrArg (fun a : Agenda => foreign _ tenant a.workflows) agenda
    dags := congrArg (fun a : Agenda => foreign _ tenant a.runs) agenda
    waiting := congrArg (fun a : Agenda => foreign _ tenant a.waiting) agenda }

theorem registerWorkflow_confined {w : Workflow} (sound : (s.registerWorkflow tenant w).2.Sound)
    (valid : w.validate = .ok ()) : Spares tenant s (s.registerWorkflow tenant w).2 ∧
      (Answer.registered (s.registerWorkflow tenant w).1).Of tenant (s.registerWorkflow tenant w).2 := by
  have numbered := workflowStrategies_numbered tenant w s.lastStrategyId (Workflow.validate_ok valid).2
  refine ⟨⟨⟨rfl, foreign_append numbered.tenant, rfl, rfl⟩, ?_, rfl, rfl⟩,
    ⟨by simp [Answer.tasks], by simp [Answer.dags], fun σ member => ?_, fun owner member => ?_⟩⟩
  · refine foreign_put rfl fun v _ notBefore notAfter => ?_
    exact (RegisteredWorkflow.eq_key notBefore notAfter).1.symm
  · obtain ⟨x, hx, rfl⟩ := List.mem_map.mp member
    exact sound.registry.strategy?_of ⟨x, List.mem_append_right _ hx, rfl, numbered.tenant x hx⟩
  · obtain ⟨x, hx, rfl⟩ := List.mem_map.mp member
    exact numbered.tenant x hx

theorem heed_confined (reached : Reachable evicted s) (done : s.heed tenant call = .ok (answer, s')) :
    Spares tenant s s' ∧ answer.Of tenant s' ∧ ∀ i ∈ answer.parents, i ∈ call.parents := by
  obtain ⟨more, obeyed⟩ := heed_obeys done
  have sound := reached.sound
  have later := reached.after _ obeyed
  have calm (routine : (call.command tenant).isRoutine = true) : s'.agenda = s.agenda :=
    routine_agenda routine sound obeyed
  cases call with
  | registerWorkflow w =>
    obtain ⟨_, valid, done⟩ := bind_ok done
    cases done
    obtain ⟨spares, of⟩ := registerWorkflow_confined later.sound valid
    exact ⟨spares, of, by simp [Answer.parents]⟩
  | triggerEvents ids now events =>
    obtain ⟨c, created, done⟩ := bind_ok done
    cases done
    have made := triggerEvents_creates created
    exact ⟨created_spares sound made rfl (triggerEvents_extends created),
      created_of made (triggerEvents_extends created) later⟩
  | triggerRuns ids now requests =>
    obtain ⟨c, created, done⟩ := bind_ok done
    cases done
    have made := triggerRuns_creates created
    exact ⟨created_spares sound made rfl (triggerRuns_extends created),
      created_of made (triggerRuns_extends created) later⟩
  | matchOutcomes ids now events =>
    obtain ⟨c, created, done⟩ := bind_ok done
    cases done
    have made := matchOutcomes_creates created
    obtain ⟨rest, same, added⟩ := matchOutcomes_extends created
    exact ⟨created_spares sound made same added, created_of made added later⟩
  | complete attempts =>
    cases done
    obtain ⟨spared, named⟩ := endEach_confined (fun s a => s.completeOne_ending tenant a) rfl sound attempts
    rw [← complete_eq] at spared named
    exact ⟨spared.whole (calm rfl), released_of later.sound named, by simp [Answer.parents]⟩
  | cancel attempts =>
    cases done
    obtain ⟨spared, named⟩ := endEach_confined (fun s a => s.cancelOne_ending tenant a) rfl sound attempts
    rw [← cancel_eq] at spared named
    exact ⟨spared.whole (calm rfl), released_of later.sound named, by simp [Answer.parents]⟩
  | fail now failures =>
    obtain ⟨⟨r, s₁⟩, failed, done⟩ := bind_ok done
    cases done
    obtain ⟨spared, named⟩ := fail_confined sound failed
    exact ⟨spared.whole (calm rfl), failed_of later.sound named, by simp [Answer.parents]⟩
  | assign now assignments =>
    obtain ⟨⟨r, s₁⟩, assigned, done⟩ := bind_ok done
    cases done
    obtain ⟨spared, named⟩ := assign_confined sound assigned
    refine ⟨spared.whole (calm rfl), ?_, by simp [Answer.parents]⟩
    refine later.sound.answer_of (r.map fun a => (a.id, [])) ?_ ?_ ?_ rfl rfl
    · simpa using named
    · simp [Answer.tasks]
    · simp [Answer.strategies]
  | runStrategy strategy =>
    cases done
    obtain ⟨placed, next⟩ := @runStrategy_names s tenant strategy sound
    refine ⟨(runStrategy_spares sound).whole (calm rfl), ⟨fun i member => ?_, by simp [Answer.dags],
      fun σ member => later.sound.registry.strategy?_of (next σ member), by simp [Answer.owners]⟩,
      by simp [Answer.parents]⟩
    obtain ⟨p, hp, rfl⟩ := List.mem_map.mp member
    exact later.sound.task?_of (placed p hp).task
  | refreshActive strategy =>
    cases done
    refine ⟨(refreshActive_spares sound).whole (calm rfl), ?_, by simp [Answer.parents]⟩
    exact ⟨by simp [Answer.tasks], by simp [Answer.dags], by simp [Answer.strategies],
      by simp [Answer.owners]⟩

/-- In every state that a store can be in, a call for a tenant leaves all that other tenants have as it
is, whether it succeeds or fails. If it succeeds, its answer names tasks, runs and strategies of the
tenant only, and as parents of tasks only those that the call gave. -/
theorem calls_confined {result : Except Fault Answer} (reached : Reachable evicted s)
    (done : (Guarded.sound s).write (·.heed tenant call) = (result, .sound s')) :
    Spares tenant s s' ∧ ∀ answer, result = .ok answer →
      answer.Of tenant s' ∧ ∀ i ∈ answer.parents, i ∈ call.parents := by
  unfold Guarded.write at done
  dsimp only at done
  split at done
  · rename_i answer s₁ heeded
    cases done
    obtain ⟨spares, confined⟩ := heed_confined reached heeded
    refine ⟨spares, fun answer same => ?_⟩
    cases same
    exact confined
  · obtain ⟨rfl, left⟩ := Prod.mk.inj done
    refine ⟨?_, by simp⟩
    unfold Guarded.afterFault at left
    split at left
    · -- A panic leaves no store behind.
      cases left
    · cases left
      exact .refl tenant s

/-- Two tenants share the store: the second one has a workflow of its own and ran it once. -/
def shared : Store :=
  match mailed.obeyAll [.registerWorkflow ⟨4⟩ oneForEachUser,
    .triggerRuns {} ⟨0⟩ ⟨4⟩ [mailFor "ann" ⟨9⟩]] with
  | .ok (_, s) => s
  | .error _ => {}

/-- The second tenant completes its task, and tries to complete one of the first. -/
theorem shared_confined : ∃ x s', (Guarded.sound shared).write
      (·.heed ⟨4⟩ (.complete [⟨1, 0⟩, ⟨3, 0⟩])) = (.ok (.released [x]), .sound s') ∧
    x.id = 3 ∧ s'.tasks.map (·.state) = [.queued, .queued, .completed] ∧ Spares ⟨4⟩ shared s' ∧
      (Answer.released [x]).Of ⟨4⟩ s' := by
  have reached : Reachable [] shared := mailed_reachable.all [.registerWorkflow ⟨4⟩ oneForEachUser,
    .triggerRuns {} ⟨0⟩ ⟨4⟩ [mailFor "ann" ⟨9⟩]] rfl
  have done : ∃ x s', (Guarded.sound shared).write (·.heed ⟨4⟩ (.complete [⟨1, 0⟩, ⟨3, 0⟩])) =
      (.ok (.released [x]), .sound s') ∧ x.id = 3 ∧
        s'.tasks.map (·.state) = [.queued, .queued, .completed] := ⟨_, _, rfl, rfl, rfl⟩
  obtain ⟨x, s', done, id, states⟩ := done
  obtain ⟨spares, named⟩ := calls_confined reached done
  exact ⟨x, s', done, id, states, spares, (named _ rfl).1⟩

end Store

end WorkflowEngine
