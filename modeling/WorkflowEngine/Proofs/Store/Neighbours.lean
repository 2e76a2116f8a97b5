import WorkflowEngine.Proofs.Store.Capacity
import WorkflowEngine.Proofs.Store.Records

/-!
What the neighbours of a tenant keep. Tenants share one numbering, one table of slots and one queue,
so a write that goes by the id of a task or a strategy could meet a row of someone else. It never does:
all that is kept for a task is its tenant's, and so are the strategies that the task holds slots in.
-/

namespace WorkflowEngine

open Fallible Store

variable {α : Type} {owner : α → TenantId} {tenant : TenantId} {l l' : List α}

/-! ### Rows of others -/

/-- The rows of all tenants but one. -/
def foreign (owner : α → TenantId) (tenant : TenantId) (l : List α) : List α :=
  l.filter (owner · != tenant)

theorem foreign_append (mine : ∀ a ∈ l', owner a = tenant) :
    foreign owner tenant (l ++ l') = foreign owner tenant l := by
  have none : l'.filter (owner · != tenant) = [] := by
    rw [List.filter_eq_nil_iff]
    intro a ha
    simp [mine a ha]
  rw [foreign, List.filter_append, none, List.append_nil, foreign]

/-- Rows are changed, and those that are keep their owner. -/
theorem foreign_map {f : α → α} (kept : ∀ a ∈ l, f a = a ∨ (owner a = tenant ∧ owner (f a) = tenant)) :
    foreign owner tenant (l.map f) = foreign owner tenant l := by
  induction l with
  | nil => rfl
  | cons a rest ih =>
    obtain ⟨head, tail⟩ := List.forall_mem_cons.mp kept
    have later : (rest.map f).filter (owner · != tenant) = rest.filter (owner · != tenant) := ih tail
    rw [foreign, foreign, List.map_cons, List.filter_cons, List.filter_cons, later]
    rcases head with same | ⟨before, after⟩
    · rw [same]
    · simp [before, after]

theorem foreign_filter {p : α → Bool} (mine : ∀ a ∈ l, p a = false → owner a = tenant) :
    foreign owner tenant (l.filter p) = foreign owner tenant l := by
  rw [foreign, foreign, List.filter_filter]
  apply List.filter_congr
  intro a ha
  cases kept : p a with
  | true => rw [Bool.and_true]
  | false => simp [mine a ha kept]

theorem foreign_put {before : α → α → Bool} {a : α} (mine : owner a = tenant)
    (same : ∀ b ∈ l, before a b = false → before b a = false → owner b = tenant) :
    foreign owner tenant (Ascending.put before a l) = foreign owner tenant l := by
  induction l with
  | nil => simp [Ascending.put, foreign, mine]
  | cons b rest ih =>
    obtain ⟨head, tail⟩ := List.forall_mem_cons.mp same
    unfold Ascending.put
    split
    · simp [foreign, mine]
    · split
      · have later : (Ascending.put before a rest).filter (owner · != tenant) =
            rest.filter (owner · != tenant) := ih tail
        rw [foreign, foreign, List.filter_cons, List.filter_cons, later]
      · rename_i notBefore notAfter
        simp [foreign, mine, head (by simpa using notBefore) (by simpa using notAfter)]

namespace Store

variable {s s' s'' : Store} {i : TaskId} {σ : StrategyId} {t u : Task} {now : Instant}

/-- The tasks, strategies, slots and places in queues of all other tenants are as before. -/
structure SparesPlaces (tenant : TenantId) (s s' : Store) : Prop where
  tasks : foreign (·.tenantId) tenant s'.tasks = foreign (·.tenantId) tenant s.tasks
  strategies : foreign (·.tenantId) tenant s'.strategies = foreign (·.tenantId) tenant s.strategies
  slots : foreign (·.tenantId) tenant s'.slots = foreign (·.tenantId) tenant s.slots
  queueItems : foreign (·.tenantId) tenant s'.queueItems = foreign (·.tenantId) tenant s.queueItems

/-- All that other tenants have in the store is as before. -/
structure Spares (tenant : TenantId) (s s' : Store) : Prop extends SparesPlaces tenant s s' where
  workflows : foreign (·.tenantId) tenant s'.workflows = foreign (·.tenantId) tenant s.workflows
  dags : foreign (·.dag.tenantId) tenant s'.dags = foreign (·.dag.tenantId) tenant s.dags
  waiting : foreign (·.tenantId) tenant s'.waiting = foreign (·.tenantId) tenant s.waiting

theorem SparesPlaces.refl (tenant : TenantId) (s : Store) : SparesPlaces tenant s s :=
  ⟨rfl, rfl, rfl, rfl⟩

theorem SparesPlaces.trans (first : SparesPlaces tenant s s') (second : SparesPlaces tenant s' s'') :
    SparesPlaces tenant s s'' :=
  ⟨second.tasks.trans first.tasks, second.strategies.trans first.strategies,
    second.slots.trans first.slots, second.queueItems.trans first.queueItems⟩

theorem Spares.refl (tenant : TenantId) (s : Store) : Spares tenant s s :=
  ⟨.refl tenant s, rfl, rfl, rfl⟩

theorem Alike.sparesPlaces (alike : Alike s s') : SparesPlaces tenant s s' :=
  ⟨by rw [alike.tasks], by rw [alike.strategies], by rw [alike.slots], by rw [alike.items]⟩

/-! ### Who has a task and a strategy -/

/-- All that is kept for the task is the tenant's. -/
structure Owned (s : Store) (tenant : TenantId) (i : TaskId) : Prop where
  tasks : ∀ t ∈ s.tasks, t.id = i → t.tenantId = tenant
  slots : ∀ x ∈ s.slots, x.task.id = i → x.tenantId = tenant
  items : ∀ q ∈ s.queueItems, q.task.id = i → q.tenantId = tenant

/-- No other tenant has the strategy. -/
def OwnStrategy (s : Store) (tenant : TenantId) (σ : StrategyId) : Prop :=
  ∀ x ∈ s.strategies, x.id = σ → x.tenantId = tenant

theorem Sound.owned (sound : s.Sound) (ht : t ∈ s.tasks) : s.Owned t.tenantId t.id := by
  have placed := sound.placed ht
  refine ⟨fun u hu same => ?_, fun x hx mine => (placed.slots x hx mine).1,
    fun q hq mine => (placed.items q hq mine).1⟩
  rw [sound.ordered.eq_of_id hu ht same]

theorem Registry.ownStrategy (registry : s.Registry) (offered : s.Offers tenant σ) :
    s.OwnStrategy tenant σ := by
  obtain ⟨x, hx, rfl, rfl⟩ := offered
  intro y hy same
  rw [registry.eq_of_id hy hx same]

theorem Sound.way_own (sound : s.Sound) (ht : t ∈ s.tasks) (member : σ ∈ t.concurrencyStrategyIds) :
    s.OwnStrategy t.tenantId σ :=
  sound.registry.ownStrategy ((sound.wired t ht).offered σ member)

theorem Owned.release (owned : s.Owned tenant i) : (s.release i).Owned tenant i :=
  ⟨owned.tasks, fun x hx => owned.slots x (List.mem_filter.mp hx).1,
    fun q hq => owned.items q (List.mem_filter.mp hq).1⟩

theorem Owned.setTask (owned : s.Owned tenant i) (mine : u.tenantId = tenant) :
    (s.setTask u).Owned tenant i := by
  refine ⟨fun v hv same => ?_, owned.slots, owned.items⟩
  rcases mem_setTask.mp hv with ⟨rfl, _⟩ | ⟨old, _⟩
  · exact mine
  · exact owned.tasks v old same

theorem Owned.fillSlot (owned : s.Owned tenant i) : (s.fillSlot σ i).Owned tenant i := by
  refine ⟨owned.tasks, fun x hx mine => ?_, owned.items⟩
  obtain ⟨y, hy, rfl⟩ := List.mem_map.mp hx
  by_cases filled : (y.strategyId == σ && y.task.id == i) = true
  · rw [if_pos filled] at mine ⊢
    exact owned.slots y hy mine
  · rw [if_neg filled] at mine ⊢
    exact owned.slots y hy mine

/-! ### Small writes -/

theorem setTask_spares (owned : s.Owned tenant u.id) (mine : u.tenantId = tenant) :
    SparesPlaces tenant s (s.setTask u) := by
  refine ⟨foreign_map fun t ht => ?_, rfl, rfl, rfl⟩
  by_cases same : t.id = u.id
  · exact Or.inr ⟨owned.tasks t ht same, by simp [same, mine]⟩
  · exact Or.inl (by simp [same])

theorem release_spares (owned : s.Owned tenant i) : SparesPlaces tenant s (s.release i) := by
  refine ⟨rfl, rfl, foreign_filter fun x hx gone => ?_, foreign_filter fun q hq gone => ?_⟩
  · exact owned.slots x hx (by simpa using gone)
  · exact owned.items q hq (by simpa using gone)

theorem insertQueueItem_spares {q : QueueItem} (owned : s.Owned tenant q.task.id)
    (mine : q.tenantId = tenant) : SparesPlaces tenant s (s.insertQueueItem q) := by
  refine ⟨rfl, rfl, rfl, foreign_put mine fun r hr notBefore notAfter => owned.items r hr ?_⟩
  simp only [decide_eq_false_iff_not, Int.not_lt] at notBefore notAfter
  exact Int.le_antisymm notBefore notAfter

theorem setStrategyActive_spares {active : Bool} (own : s.OwnStrategy tenant σ) :
    SparesPlaces tenant s (s.setStrategyActive σ active) := by
  refine ⟨rfl, foreign_map fun x hx => ?_, rfl, rfl⟩
  by_cases same : x.id = σ
  · exact Or.inr ⟨own x hx same, by simp [same, own x hx same]⟩
  · exact Or.inl (by simp [same])

theorem insertSlot_spares {a : Attempt} (owned : s.Owned tenant a.id) (own : s.OwnStrategy tenant σ)
    (key queue : String) (next : List StrategyId) :
    SparesPlaces tenant s (s.insertSlot tenant σ a key queue next) := by
  refine ⟨rfl, (setStrategyActive_spares own).strategies, ?_, rfl⟩
  have replaced : ∀ x ∈ s.slots, (!(x.strategyId == σ && x.task.id == a.id)) = false →
      x.tenantId = tenant := by
    intro x hx gone
    simp only [Bool.not_eq_false', Bool.and_eq_true, beq_iff_eq] at gone
    exact owned.slots x hx gone.2
  exact (foreign_append (by simp)).trans (foreign_filter replaced)

theorem fillSlot_spares (owned : s.Owned tenant i) : SparesPlaces tenant s (s.fillSlot σ i) := by
  refine ⟨rfl, rfl, foreign_map fun x hx => ?_, rfl⟩
  by_cases mine : x.strategyId = σ ∧ x.task.id = i
  · have own := owned.slots x hx mine.2
    exact Or.inr ⟨own, by simp [mine, own]⟩
  · exact Or.inl (by simpa using fun strategy task => absurd ⟨strategy, task⟩ mine)

theorem enqueue_spares (owned : s.Owned t.tenantId t.id)
    (own : ∀ σ ∈ t.concurrencyStrategyIds, s.OwnStrategy t.tenantId σ) :
    SparesPlaces t.tenantId s (s.enqueue t) := by
  unfold enqueue
  split
  · exact insertQueueItem_spares owned rfl
  · rename_i first next limited
    exact insertSlot_spares (a := t.attempt) owned (own first (limited ▸ List.mem_cons_self)) _ _ _

/-! ### Attempts -/

theorem finish_spares (sound : s.Sound) (ht : t ∈ s.tasks) (keeps : t.Keeps u) :
    SparesPlaces t.tenantId s ((s.setTask u).release u.id) := by
  have owned : s.Owned t.tenantId u.id := keeps.id.symm ▸ sound.owned ht
  exact (setTask_spares owned keeps.tenant).trans (release_spares (owned.setTask keeps.tenant))

theorem retry_spares (sound : s.Sound) (ht : t ∈ s.tasks) (keeps : t.Keeps u) :
    SparesPlaces t.tenantId s (((s.setTask u).release u.id).enqueue u) := by
  have owned : s.Owned t.tenantId u.id := keeps.id.symm ▸ sound.owned ht
  have left : ((s.setTask u).release u.id).Owned u.tenantId u.id := by
    rw [keeps.tenant]
    exact (owned.setTask keeps.tenant).release
  have own : ∀ σ ∈ u.concurrencyStrategyIds,
      ((s.setTask u).release u.id).OwnStrategy u.tenantId σ := by
    rw [keeps.tenant, keeps.strategies]
    exact fun σ member => sound.way_own ht member
  have again := enqueue_spares left own
  rw [keeps.tenant] at again
  exact (finish_spares sound ht keeps).trans again

theorem start_spares (sound : s.Sound) (ht : t ∈ s.tasks) (keeps : t.Keeps u) :
    SparesPlaces t.tenantId s (s.start u) := by
  have owned : s.Owned t.tenantId u.id := keeps.id.symm ▸ sound.owned ht
  have left := owned.setTask keeps.tenant
  refine (setTask_spares owned keeps.tenant).trans ⟨rfl, rfl, rfl, foreign_filter fun q hq gone => ?_⟩
  exact left.items q hq (by simpa using gone)

/-! ### Strategies -/

theorem deferTo_spares {x : Slot} {d : Admission.Decision} {next : StrategyId} (sound : s.Sound)
    (ht : t ∈ s.tasks) (about : d.task.id = t.id) (mine : x.tenantId = t.tenantId) :
    SparesPlaces t.tenantId (s.fillSlot σ d.task.id) ((s.fillSlot σ d.task.id).deferTo next x d) := by
  have owned : s.Owned t.tenantId d.task.id := about ▸ sound.owned ht
  unfold deferTo
  split
  · exact .refl _ _
  · split
    · exact .refl _ _
    · rename_i v found
      have found : s.task? d.task.id = some v := found
      split
      · exact .refl _ _
      · rename_i place listed
        obtain ⟨hv, id⟩ := mem_of_task? found
        obtain rfl := sound.ordered.eq_of_id hv ht (id.trans about)
        obtain ⟨bound, equal, _⟩ := List.findIdx?_eq_some_iff_getElem.mp listed
        rw [mine]
        refine insertSlot_spares owned.fillSlot ?_ _ _ _
        exact sound.way_own ht (eq_of_beq equal ▸ List.getElem_mem bound)

theorem carryOut_spares {d : Admission.Decision} (sound : s.Sound) (ht : t ∈ s.tasks)
    (about : d.task.id = t.id) : SparesPlaces t.tenantId s (s.carryOut σ d) := by
  have owned : s.Owned t.tenantId d.task.id := about ▸ sound.owned ht
  have own : ∀ x, s.slot? σ d.task.id = some x → x.tenantId = t.tenantId := by
    intro x found
    have both := List.find?_some found
    simp only [Bool.and_eq_true, beq_iff_eq] at both
    exact owned.slots x (List.mem_of_find?_eq_some found) both.2
  unfold carryOut
  split
  · exact release_spares owned
  · split
    · exact .refl _ _
    · exact (fillSlot_spares owned).trans (insertQueueItem_spares owned.fillSlot (own _ ‹_›))
  · split
    · exact .refl _ _
    · exact (fillSlot_spares owned).trans (deferTo_spares sound ht about (own _ ‹_›))

theorem carryOutAll_spares {ds : List Admission.Decision} (sound : s.Sound)
    (backs : ∀ d ∈ ds, s.Backs σ d) (once : (ds.map (·.task.id)).Nodup)
    (mine : ∀ d ∈ ds, ∃ t ∈ s.tasks, t.id = d.task.id ∧ t.tenantId = tenant) :
    SparesPlaces tenant s (s.carryOutAll σ ds) := by
  induction ds generalizing s with
  | nil => exact .refl _ _
  | cons d rest ih =>
    obtain ⟨fresh, once⟩ := List.nodup_cons.mp once
    obtain ⟨backed, backs⟩ := List.forall_mem_cons.mp backs
    obtain ⟨⟨t, ht, id, owner⟩, mine⟩ := List.forall_mem_cons.mp mine
    subst owner
    refine (carryOut_spares sound ht id.symm).trans (ih (carryOut_sound sound backed) ?_ once ?_)
    · exact fun d' hd' => (backs d' hd').of_only carryOut_only
        fun same => fresh (List.mem_map.mpr ⟨d', hd', same⟩)
    · rwa [carryOut_tasks]

/-- A decision for a tenant is about a slot of the tenant, and defers its attempt to what comes next
for the slot. -/
theorem Sound.decisions_own {strategy : Strategy} {d : Admission.Decision} (sound : s.Sound)
    (member : d ∈ s.decisions tenant strategy) : ∃ x ∈ s.slots, x.task = d.task ∧ x.tenantId = tenant ∧
      ∀ next, d.verdict = .deferred next → next ∈ x.next := by
  obtain ⟨c, hc, verdict⟩ := Admission.evaluate_backed sound.candidates_distinct member
  obtain ⟨x, hx, rfl⟩ := List.mem_map.mp hc
  obtain ⟨hx, owner⟩ := List.mem_filter.mp hx
  refine ⟨x, (List.mem_filter.mp hx).1, ?_, eq_of_beq owner, ?_⟩
  · rcases verdict with rfl | ⟨_, rfl⟩ <;> rfl
  · rintro next deferred
    rcases verdict with rfl | ⟨_, rfl⟩
    · cases deferred
    · simp only [Admission.Candidate.letIn, candidate] at deferred
      split at deferred
      · cases deferred
      · rename_i first later more
        cases deferred
        exact more ▸ List.mem_cons_self

theorem runStrategy_spares {strategy : Strategy} (sound : s.Sound) :
    SparesPlaces tenant s (s.runStrategy tenant strategy).2 := by
  rw [sound.runStrategy_eq]
  have backs := fun d (hd : d ∈ s.decisions tenant (s.asRegistered strategy)) =>
    sound.decisions_back hd
  rw [asRegistered_id] at backs
  refine carryOutAll_spares sound backs (sound.decisions_nodup _ _) fun d hd => ?_
  obtain ⟨x, hx, task, owner, _⟩ := sound.decisions_own hd
  obtain ⟨t, ht, tenant, attempt, _⟩ := sound.slot_current hx
  exact ⟨t, ht, by rw [← task, ← attempt]; rfl, tenant.trans owner⟩

theorem refreshActive_spares {strategy : StrategyId} (sound : s.Sound) :
    SparesPlaces tenant s (s.refreshActive tenant strategy).2 := by
  simp only [refreshActive]
  split
  · rename_i known
    obtain ⟨x, found, owner⟩ := (Option.any_eq_true _ _).mp known
    have id : x.id = strategy := by simpa using List.find?_some found
    refine setStrategyActive_spares (sound.registry.ownStrategy ?_)
    exact ⟨x, List.mem_of_find?_eq_some found, id, eq_of_beq owner⟩
  · exact .refl _ _

/-! ### Creation -/

variable {w : RegisteredWorkflow} {step : Step} {n : NewTask}

theorem insertTask_spares (sound : s.Sound) (known : w ∈ s.workflows) (own : step ∈ w.definition.steps)
    (free : ∀ p ∈ n.forced, p.1 ≠ .queued) (h : s.insertTask w step n now = .ok (t, s')) :
    SparesPlaces w.tenantId s s' := by
  obtain ⟨created, result⟩ := insertTask_ok free h
  have added : SparesPlaces t.tenantId s (s.addTask t) :=
    ⟨foreign_append (by simp), rfl, rfl, rfl⟩
  rw [← created.tenant]
  rcases result with ⟨_, rfl⟩ | ⟨_, rfl⟩
  · have placeless := sound.fresh_placeless
    rw [← created.id] at placeless
    have owned : (s.addTask t).Owned t.tenantId t.id := by
      refine ⟨fun u hu same => by rw [created.eq_of_id sound hu same], fun x hx mine => ?_,
        fun q hq mine => absurd mine (placeless.items q hq)⟩
      have held : x ∈ s.slotsFor t.id := mem_slotsFor.mpr ⟨hx, mine⟩
      rw [placeless.slots] at held
      cases held
    have way := (created.wired sound known own).offered
    exact added.trans (enqueue_spares owned fun σ member => sound.registry.ownStrategy (way σ member))
  · exact added

end Store

theorem Creation.Creates.sparesPlaces {c c' : Creation} {named : List ExternalId}
    (made : Creates tenant named c c') (sound : c.store.Sound) :
    SparesPlaces tenant c.store c'.store := by
  induction made with
  | none => exact .refl _ _
  | other _ alike _ _ ih => exact ih.trans alike.sparesPlaces
  | task before source inserted _ _ _ ih =>
    refine ih.trans ?_
    rw [← source.owner]
    exact insertTask_spares (Moves.sound before.quiet sound) source.known source.own source.free inserted

end WorkflowEngine
