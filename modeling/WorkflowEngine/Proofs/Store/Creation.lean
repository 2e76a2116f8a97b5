import WorkflowEngine.Proofs.Store.Move

/-!
How tasks come into being: one after the other, each of a step of a workflow that its tenant has, and
each under an external id of its own. An id that an order names is looked up before; an id that is
drawn is not.
-/

namespace WorkflowEngine

open Fallible Store

variable {s : Store} {ids : IdSource} {c c₁ c₂ : Creation} {tenant : TenantId}
  {named : List ExternalId} {w : RegisteredWorkflow} {step : Step} {n : NewTask} {t : Task}
  {r : RunRequest} {now : Instant}

namespace Store

theorem Alike.refl (s : Store) : Alike s s := ⟨rfl, rfl, rfl, rfl, rfl, rfl, rfl, rfl⟩

theorem Alike.trans {s₁ s₂ s₃ : Store} (first : Alike s₁ s₂) (second : Alike s₂ s₃) :
    Alike s₁ s₃ :=
  ⟨second.strategies.trans first.strategies, second.workflows.trans first.workflows,
    second.numbered.trans first.numbered, second.retries.trans first.retries,
    second.tasks.trans first.tasks, second.slots.trans first.slots,
    second.items.trans first.items, second.last.trans first.last⟩

end Store

namespace Creation

/-- The external id was named, or has been drawn since. -/
def Origin (named : List ExternalId) (c c₁ : Creation) (id : ExternalId) : Prop :=
  id ∈ named ∨ ∃ k, c.ids.drawn < k ∧ k ≤ c₁.ids.drawn ∧ id = .generated k

/-- What a task is made of: a step of a workflow of the tenant. Only the step may let it wait. -/
structure Source (c : Creation) (tenant : TenantId) (w : RegisteredWorkflow) (step : Step)
    (n : NewTask) : Prop where
  known : w ∈ c.store.workflows
  owner : w.tenantId = tenant
  own : step ∈ w.definition.steps
  free : ∀ p ∈ n.forced, p.1 ≠ .queued

/-- Tasks were created for a tenant, one at a time, and nothing else has changed that they depend
on. The id of each was free when it was looked up, or was drawn just before. -/
inductive Creates (tenant : TenantId) (named : List ExternalId) (c : Creation) : Creation → Prop where
  | none : Creates tenant named c c
  | other {c₁ c₂ : Creation} (before : Creates tenant named c c₁) (alike : Alike c₁.store c₂.store)
      (drawn : c₁.ids.drawn ≤ c₂.ids.drawn) (tasks : c₂.tasks = c₁.tasks) : Creates tenant named c c₂
  | task {c₁ c₂ : Creation} {w : RegisteredWorkflow} {step : Step} {n : NewTask} {now : Instant}
      {t : Task} (before : Creates tenant named c c₁) (source : Source c₁ tenant w step n)
      (inserted : c₁.store.insertTask w step n now = .ok (t, c₂.store))
      (drawn : c₁.ids.drawn ≤ c₂.ids.drawn) (tasks : c₂.tasks = c₁.tasks ++ [t])
      (id : (c₁.store.isTaken n.externalId = false ∧ Origin named c c₁ n.externalId) ∨
        (c₁.ids.drawn < c₂.ids.drawn ∧ n.externalId = .generated c₂.ids.drawn)) :
      Creates tenant named c c₂

/-! ### What was created -/

theorem Creates.quiet (made : Creates tenant named c c₁) : Quiet c.store c₁.store := by
  induction made with
  | none => exact .refl _
  | other _ alike _ _ ih => exact ih.trans (Move.other alike).quiet
  | task _ source inserted _ _ _ ih =>
    exact ih.trans (Move.created source.known source.own source.free inserted).quiet

theorem Creates.terms (made : Creates tenant named c c₁) : SameTerms c.store c₁.store := by
  induction made with
  | none => exact .refl _
  | other _ alike _ _ ih => exact ih.trans alike.terms
  | task _ source inserted _ _ _ ih => exact ih.trans (insertTask_terms source.free inserted)

theorem Creates.drawn (made : Creates tenant named c c₁) : c.ids.drawn ≤ c₁.ids.drawn := by
  induction made with
  | none => exact Nat.le_refl _
  | other _ _ drawn _ ih => exact Nat.le_trans ih drawn
  | task _ _ _ drawn _ _ ih => exact Nat.le_trans ih drawn

theorem Origin.later {id : ExternalId} (origin : Origin named c c₁ id)
    (drawn : c₁.ids.drawn ≤ c₂.ids.drawn) : Origin named c c₂ id := by
  refine origin.imp_right ?_
  rintro ⟨k, since, until_, rfl⟩
  exact ⟨k, since, Nat.le_trans until_ drawn, rfl⟩

/-- A task that was created, in the state that it was created in. -/
structure Newborn (tenant : TenantId) (named : List ExternalId) (c c₁ : Creation) (t : Task) :
    Prop where
  tenant : t.tenantId = tenant
  retryCount : t.retryCount = 0
  internalRetryCount : t.internalRetryCount = 0
  state : t.state = t.initialState.state
  id : c.store.lastTaskId < t.id ∧ t.id ≤ c₁.store.lastTaskId
  externalId : Origin named c c₁ t.externalId

/-- The new tasks stand behind the old ones. -/
theorem Creates.tasks (made : Creates tenant named c c₁) :
    ∃ new, c₁.store.tasks = c.store.tasks ++ new ∧ c₁.tasks = c.tasks ++ new ∧
      c.store.lastTaskId ≤ c₁.store.lastTaskId ∧ ∀ t ∈ new, Newborn tenant named c c₁ t := by
  induction made with
  | none =>
    exact ⟨[], (List.append_nil _).symm, (List.append_nil _).symm, Int.le_refl _,
      fun _ h => absurd h List.not_mem_nil⟩
  | @other c₁ c₂ _ alike drawn tasks ih =>
    obtain ⟨new, stored, listed, last, born⟩ := ih
    refine ⟨new, alike.tasks.trans stored, tasks.trans listed, by rwa [alike.last], ?_⟩
    intro t ht
    have old := born t ht
    exact { old with
      id := ⟨old.id.1, by rw [alike.last]; exact old.id.2⟩
      externalId := old.externalId.later drawn }
  | @task c₁ c₂ w step n now t before source inserted drawn tasks id ih =>
    obtain ⟨new, stored, listed, last, born⟩ := ih
    obtain ⟨created, _⟩ := insertTask_ok source.free inserted
    obtain ⟨appended, latest⟩ := insertTask_tasks source.free inserted
    have next : c₁.store.lastTaskId < c₂.store.lastTaskId := by
      rw [latest, created.id]
      exact Int.lt_add_one_of_le (Int.le_refl _)
    refine ⟨new ++ [t], ?_, ?_, Int.le_trans last (Int.le_of_lt next), ?_⟩
    · rw [appended, stored, List.append_assoc]
    · rw [tasks, listed, List.append_assoc]
    · intro u hu
      rcases List.mem_append.mp hu with old | new
      · have old := born u old
        exact { old with
          id := ⟨old.id.1, Int.le_trans old.id.2 (Int.le_of_lt next)⟩
          externalId := old.externalId.later drawn }
      · rw [List.mem_singleton.mp new]
        refine ⟨created.tenant.trans source.owner, created.retryCount, created.internalRetryCount,
          created.state, ⟨?_, Int.le_of_eq latest.symm⟩, ?_⟩
        · rw [← latest]
          exact Int.lt_of_le_of_lt last next
        · rw [created.externalId]
          rcases id with ⟨_, origin⟩ | ⟨more, same⟩
          · exact origin.later drawn
          · exact Or.inr ⟨_, Nat.lt_of_le_of_lt before.drawn more, Nat.le_refl _, same⟩

/-! ### Runs -/

theorem addTask_eq (h : c.addTask w step n now = .ok c₁) :
    ∃ t, c.store.insertTask w step n now = .ok (t, c₁.store) ∧ c₁.ids = c.ids ∧
      c₁.tasks = c.tasks ++ [t] := by
  obtain ⟨⟨t, store⟩, inserted, h⟩ := bind_ok h
  cases h
  exact ⟨t, inserted, rfl, rfl⟩

/-- A task is created under an id that is drawn for it. -/
theorem Creates.drawTask (before : Creates tenant named c c₁) (source : Source c₁ tenant w step n)
    (id : n.externalId = c₁.ids.draw.1)
    (h : { c₁ with ids := c₁.ids.draw.2 }.addTask w step n now = .ok c₂) :
    Creates tenant named c c₂ := by
  obtain ⟨t, inserted, same, tasks⟩ := addTask_eq h
  have drawn : c₂.ids.drawn = c₁.ids.drawn + 1 := by
    rw [same]
    rfl
  refine .task before source inserted ?_ tasks (Or.inr ⟨?_, ?_⟩)
  · rw [drawn]
    exact Nat.le_succ _
  · rw [drawn]
    exact Nat.lt_succ_self _
  · rw [id, drawn]
    rfl

theorem Creates.addSingle (before : Creates tenant named c c₁) (known : w ∈ c₁.store.workflows)
    (owner : w.tenantId = tenant) (free : c₁.store.isTaken r.externalId = false)
    (origin : Origin named c c₁ r.externalId) (h : c₁.addSingle w r now = .ok c₂) :
    Creates tenant named c c₂ := by
  unfold Creation.addSingle at h
  split at h
  · cases h
    exact before
  · rename_i step rest steps
    obtain ⟨t, inserted, same, tasks⟩ := addTask_eq h
    have own : step ∈ w.definition.steps := steps ▸ List.mem_cons_self
    exact .task before ⟨known, owner, own, by simp⟩ inserted (by rw [same]) tasks
      (Or.inl ⟨free, origin⟩)

theorem Creates.addDag (before : Creates tenant named c c₁) (known : w ∈ c₁.store.workflows)
    (owner : w.tenantId = tenant) (h : c₁.addDag w r now = .ok c₂) : Creates tenant named c c₂ := by
  obtain ⟨c₃, roots, h⟩ := bind_ok h
  cases h
  have opened : Creates tenant named c c₃ ∧ c₃.store.workflows = c₁.store.workflows := by
    refine foldlM_ok (P := fun c₃ => Creates tenant named c c₃ ∧
      c₃.store.workflows = c₁.store.workflows) roots ⟨?_, rfl⟩ ?_
    · exact .other before ⟨rfl, rfl, rfl, rfl, rfl, rfl, rfl, rfl⟩ (Nat.le_refl _) rfl
    · rintro c₃ step root c₄ ⟨earlier, workflows⟩ added
      have later : Creates tenant named c c₄ := by
        refine earlier.drawTask ⟨?_, owner, (List.mem_filter.mp root).1, ?_⟩ rfl added
        · rwa [workflows]
        · simp
      exact ⟨later, (later.terms.workflows.trans earlier.terms.workflows.symm).trans workflows⟩
  exact .other opened.1 ⟨rfl, rfl, rfl, rfl, rfl, rfl, rfl, rfl⟩ (Nat.le_refl _) rfl

theorem Creates.addRun (before : Creates tenant named c c₁) (known : w ∈ c₁.store.workflows)
    (owner : w.tenantId = tenant) (origin : Origin named c c₁ r.externalId)
    (h : c₁.addRun w r now = .ok c₂) : Creates tenant named c c₂ := by
  unfold Creation.addRun at h
  split at h
  · cases h
    exact before
  · rename_i free
    split at h
    · exact before.addDag known owner h
    · exact before.addSingle known owner (by simpa using free) origin h

/-! ### Triggers -/

theorem Creates.addEventRun {e : UserEvent} (before : Creates tenant named c c₁)
    (known : w ∈ c₁.store.workflows) (owner : w.tenantId = tenant)
    (h : c₁.addEventRun w e now = .ok c₂) : Creates tenant named c c₂ := by
  have drawn : Creates tenant named c { c₁ with ids := c₁.ids.draw.2 } :=
    .other before (.refl _) (Nat.le_succ _) rfl
  refine drawn.addRun known owner (Or.inr ⟨_, ?_, Nat.le_refl _, rfl⟩) h
  exact Nat.lt_succ_of_le before.drawn

theorem Creates.addEvent {e : UserEvent} (before : Creates tenant named c c₁)
    (h : c₁.addEvent tenant now e = .ok c₂) : Creates tenant named c c₂ := by
  refine foldlM_ok (P := fun c₂ => Creates tenant named c c₂) h before ?_
  intro c₃ w matching c₄ earlier added
  obtain ⟨listed, fits⟩ := List.mem_filter.mp matching
  obtain ⟨owner, -⟩ := (Bool.and_eq_true _ _).mp fits
  refine earlier.addEventRun ?_ (eq_of_beq owner) added
  rw [earlier.terms.workflows, ← before.terms.workflows]
  exact listed

theorem workflow?_tenant {name : String} (h : s.workflow? tenant name = some w) :
    w.tenantId = tenant := by
  have both := List.find?_some h
  simp only [Bool.and_eq_true, beq_iff_eq] at both
  exact both.1

theorem Creates.addRequest (before : Creates tenant named c c₁) (member : r.externalId ∈ named)
    (h : c₁.addRequest tenant now r = .ok c₂) : Creates tenant named c c₂ := by
  unfold Creation.addRequest at h
  split at h
  · cases h
    exact before
  · rename_i w found
    have known : w ∈ c₁.store.workflows := List.mem_of_find?_eq_some found
    have owner := workflow?_tenant found
    split at h
    · exact before.addRun known owner (Or.inl member) h
    · split at h
      · cases h
        exact before
      · obtain ⟨c₃, added, h⟩ := bind_ok h
        cases h
        exact .other (before.addRun known owner (Or.inl member) added)
          ⟨rfl, rfl, rfl, rfl, rfl, rfl, rfl, rfl⟩ (Nat.le_refl _) rfl

theorem Creates.addReady {waiting : WaitingStep} (before : Creates tenant named c c₁)
    (h : c₁.addReady tenant now waiting = .ok c₂) : Creates tenant named c c₂ := by
  simp only [Creation.addReady] at h
  split at h
  · cases h
    exact before
  · rename_i dag w step found
    obtain ⟨record, _, found⟩ := Option.bind_eq_some_iff.mp found
    obtain ⟨w', known, found⟩ := Option.bind_eq_some_iff.mp found
    obtain ⟨step', own, found⟩ := Option.bind_eq_some_iff.mp found
    cases found
    refine before.drawTask ⟨List.mem_of_find?_eq_some known, workflow?_tenant known,
      List.mem_of_find?_eq_some own, ?_⟩ rfl h
    intro p blocked
    obtain ⟨o, _, rfl⟩ := Option.map_eq_some_iff.mp blocked
    simp

end Creation

namespace Store

open Creation

theorem triggerEvents_creates {events : List UserEvent}
    (h : s.triggerEvents ids now tenant events = .ok c) :
    Creates tenant [] { store := s, ids } c := by
  obtain ⟨_, _, h⟩ := bind_ok h
  refine foldlM_ok (P := fun c => Creates tenant [] { store := s, ids } c) h .none ?_
  exact fun c₁ e _ c₂ before added => before.addEvent added

theorem triggerRuns_creates {requests : List RunRequest}
    (h : s.triggerRuns ids now tenant requests = .ok c) :
    Creates tenant (requests.map (·.externalId)) { store := s, ids } c := by
  obtain ⟨_, _, h⟩ := bind_ok h
  refine foldlM_ok (P := fun c => Creates tenant (requests.map (·.externalId)) { store := s, ids } c)
    h .none ?_
  exact fun c₁ r member c₂ before added => before.addRequest (List.mem_map_of_mem member) added

theorem noteOutcome_alike (s : Store) (tenant : TenantId) (e : OutcomeEvent) :
    Alike s (s.noteOutcome tenant e) := by
  unfold noteOutcome
  split
  · exact .refl s
  · split
    · exact .refl s
    · split
      · exact .refl s
      · exact ⟨rfl, rfl, rfl, rfl, rfl, rfl, rfl, rfl⟩

theorem noteOutcomes_alike (s : Store) (tenant : TenantId) (events : List OutcomeEvent) :
    Alike s (events.foldl (fun s e => s.noteOutcome tenant e) s) := by
  induction events generalizing s with
  | nil => exact .refl s
  | cons e rest ih => exact (noteOutcome_alike s tenant e).trans (ih _)

theorem matchOutcomes_creates {events : List OutcomeEvent}
    (h : s.matchOutcomes ids now tenant events = .ok c) :
    Creates tenant [] { store := s, ids } c := by
  obtain ⟨_, _, h⟩ := bind_ok h
  have noted := noteOutcomes_alike s tenant events
  refine foldlM_ok (P := fun c => Creates tenant [] { store := s, ids } c) h ?_ ?_
  · exact .other .none (noted.trans ⟨rfl, rfl, rfl, rfl, rfl, rfl, rfl, rfl⟩) (Nat.le_refl _) rfl
  · exact fun c₁ w _ c₂ before added => before.addReady added

end Store

end WorkflowEngine
