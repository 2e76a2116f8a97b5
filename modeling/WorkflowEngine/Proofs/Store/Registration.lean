import Mathlib.Algebra.GroupWithZero.Nat
import WorkflowEngine.Proofs.Store.Sound

/-!
Registering a workflow. Its strategies are numbered on from the last one, and each of its steps finds
those of its own limits.
-/

namespace WorkflowEngine

namespace Workflow

/-- No name is repeated. -/
theorem nodup_of_repeated?_none {names seen : List String} (h : repeated? seen names = none) :
    names.Nodup ∧ ∀ name ∈ names, name ∉ seen := by
  induction names generalizing seen with
  | nil => simp
  | cons name rest ih =>
    unfold repeated? at h
    split at h
    · cases h
    · rename_i fresh
      obtain ⟨nodup, apart⟩ := ih h
      have first : name ∉ seen := by simpa using fresh
      refine ⟨List.nodup_cons.mpr ⟨fun again => apart name again List.mem_cons_self, nodup⟩, ?_⟩
      intro other member
      rcases List.mem_cons.mp member with rfl | later
      · exact first
      · exact fun known => apart other later (List.mem_cons_of_mem _ known)

/-- A valid workflow names each step once, and no step has a defect. -/
theorem validate_steps {w : Workflow} (valid : w.validate = .ok ()) :
    (w.steps.map (·.readableId)).Nodup ∧
      ∀ step ∈ w.steps, stepDefect? (w.steps.map (·.readableId)) step = none := by
  have sane : w.defect? = none := by
    unfold validate at valid
    split at valid
    · cases valid
    · assumption
  unfold defect? at sane
  simp only at sane
  split at sane
  · cases sane
  · split at sane
    · cases sane
    · rename_i unique
      exact ⟨(nodup_of_repeated?_none unique).1, List.findSome?_eq_none_iff.mp sane⟩

/-- The parents of a step without a defect are steps, and its limits let something in. -/
theorem stepDefect?_none {names : List String} {step : Step} (clean : stepDefect? names step = none) :
    (∀ p ∈ step.parents, p ∈ names) ∧ ∀ l ∈ step.limits, 0 < l.maxConcurrency := by
  unfold stepDefect? at clean
  split at clean
  · cases clean
  · rename_i known
    split at clean
    · cases clean
    · rename_i positive
      simp only [List.any_eq_true, decide_eq_true_eq, not_exists, not_and] at positive
      refine ⟨fun p member => ?_, fun l member => Int.not_le.mp (positive l member)⟩
      simpa using List.find?_eq_none.mp known p member

/-- A valid workflow names each step once, and its limits let something in. -/
theorem validate_ok {w : Workflow} (valid : w.validate = .ok ()) :
    (w.steps.map (·.readableId)).Nodup ∧
      ∀ step ∈ w.steps, ∀ l ∈ step.limits, 0 < l.maxConcurrency :=
  (validate_steps valid).imp_right fun clean step own => (stepDefect?_none (clean step own)).2

end Workflow

namespace Store

variable {s : Store} {tenant : TenantId} {w : Workflow} {last : StrategyId}

/-- Strategies are numbered on from some id, for limits that let something in. -/
structure Numbered (tenant : TenantId) (last upto : StrategyId) (ss : List Strategy) : Prop where
  ascending : ss.Pairwise fun a b => a.id < b.id
  range : ∀ x ∈ ss, last < x.id ∧ x.id ≤ upto
  tenant : ∀ x ∈ ss, x.tenantId = tenant
  positive : ∀ x ∈ ss, 0 < x.maxConcurrency

theorem Numbered.append {middle upto : StrategyId} {xs ys : List Strategy}
    (first : Numbered tenant last middle xs) (second : Numbered tenant middle upto ys)
    (up : last ≤ middle) (on : middle ≤ upto) : Numbered tenant last upto (xs ++ ys) := by
  refine ⟨?_, ?_, ?_, ?_⟩
  · refine List.pairwise_append.mpr ⟨first.ascending, second.ascending, ?_⟩
    intro x hx y hy
    exact Int.lt_of_le_of_lt (first.range x hx).2 (second.range y hy).1
  · intro x hx
    rcases List.mem_append.mp hx with old | new
    · exact ⟨(first.range x old).1, Int.le_trans (first.range x old).2 on⟩
    · exact ⟨Int.lt_of_le_of_lt up (second.range x new).1, (second.range x new).2⟩
  · exact fun x hx => (List.mem_append.mp hx).elim (first.tenant x) (second.tenant x)
  · exact fun x hx => (List.mem_append.mp hx).elim (first.positive x) (second.positive x)

theorem stepStrategies_length {step : Step} {limits : List StepLimit} :
    (stepStrategies tenant w step last limits).length = limits.length := by
  induction limits generalizing last with
  | nil => rfl
  | cons l rest ih => rw [stepStrategies, List.length_cons, ih, List.length_cons]

theorem stepStrategies_numbered (tenant : TenantId) (w : Workflow) (step : Step)
    (last : StrategyId) {limits : List StepLimit} (positive : ∀ l ∈ limits, 0 < l.maxConcurrency) :
    Numbered tenant last (last + limits.length) (stepStrategies tenant w step last limits) := by
  induction limits generalizing last with
  | nil => exact ⟨.nil, by simp [stepStrategies], by simp [stepStrategies], by simp [stepStrategies]⟩
  | cons l rest ih =>
    have later := ih (last + 1) fun l' member => positive l' (List.mem_cons_of_mem _ member)
    have first : Numbered tenant last (last + 1)
        [({ id := last + 1, tenantId := tenant, workflowId := w.id, stepId := step.id,
            policy := l.policy, expression := l.expression, maxConcurrency := l.maxConcurrency,
            isActive := true } : Strategy)] := by
      refine ⟨List.pairwise_singleton _ _, ?_, by simp, ?_⟩
      · intro x hx
        rw [List.mem_singleton.mp hx]
        exact ⟨Int.lt_succ last, Int.le_refl _⟩
      · intro x hx
        rw [List.mem_singleton.mp hx]
        exact positive l List.mem_cons_self
    have whole := first.append later (Int.le_of_lt (Int.lt_succ last))
      (Int.le_add_of_nonneg_right (Int.natCast_nonneg _))
    have total : last + 1 + (rest.length : Int) = last + ((l :: rest).length : Int) := by
      rw [List.length_cons]
      grind
    rw [total] at whole
    exact whole

/-- The number of strategies that steps need. -/
def limitsOf (steps : List Step) : Nat := (steps.map (·.limits.length)).sum

theorem workflowStrategies_length (tenant : TenantId) (w : Workflow) (last : StrategyId)
    (steps : List Step) :
    ((workflowStrategies tenant w last steps).flatMap (·.2)).length = limitsOf steps := by
  induction steps generalizing last with
  | nil => rfl
  | cons first rest ih =>
    rw [workflowStrategies, List.flatMap_cons, List.length_append, ih, stepStrategies_length, limitsOf,
      limitsOf, List.map_cons, List.sum_cons]

theorem workflowStrategies_numbered (tenant : TenantId) (w : Workflow) (last : StrategyId)
    {steps : List Step} (positive : ∀ step ∈ steps, ∀ l ∈ step.limits, 0 < l.maxConcurrency) :
    Numbered tenant last (last + limitsOf steps)
      ((workflowStrategies tenant w last steps).flatMap (·.2)) := by
  induction steps generalizing last with
  | nil =>
    exact ⟨.nil, by simp [workflowStrategies], by simp [workflowStrategies],
      by simp [workflowStrategies]⟩
  | cons step rest ih =>
    have later := ih (last + step.limits.length)
      fun step' member => positive step' (List.mem_cons_of_mem _ member)
    have first := stepStrategies_numbered tenant w step last (positive step List.mem_cons_self)
    rw [workflowStrategies, List.flatMap_cons]
    have whole := first.append later (Int.le_add_of_nonneg_right (Int.natCast_nonneg _))
      (Int.le_add_of_nonneg_right (Int.natCast_nonneg _))
    have total : last + (step.limits.length : Int) + (limitsOf rest : Int) =
        last + (limitsOf (step :: rest) : Int) := by
      rw [limitsOf, limitsOf, List.map_cons, List.sum_cons]
      grind
    rwa [total] at whole

/-- A step finds the strategies of its limits under its name. -/
theorem workflowStrategies_find (tenant : TenantId) (w : Workflow) (last : StrategyId)
    {steps : List Step} {step : Step} (unique : (steps.map (·.readableId)).Nodup)
    (own : step ∈ steps) :
    ∃ start ss, (workflowStrategies tenant w last steps).find? (·.1 == step.readableId) =
      some (step.readableId, ss) ∧ ss = stepStrategies tenant w step start step.limits ∧
        ∀ x ∈ ss, x ∈ (workflowStrategies tenant w last steps).flatMap (·.2) := by
  induction steps generalizing last with
  | nil => cases own
  | cons first rest ih =>
    obtain ⟨fresh, unique⟩ := List.nodup_cons.mp unique
    rw [workflowStrategies]
    rcases List.mem_cons.mp own with rfl | later
    · refine ⟨last, _, List.find?_cons_of_pos (by simp), rfl, ?_⟩
      exact fun x hx => List.mem_flatMap.mpr ⟨_, List.mem_cons_self, hx⟩
    · obtain ⟨start, ss, found, numbered, listed⟩ :=
        ih (last + first.limits.length) unique later
      refine ⟨start, ss, ?_, numbered, ?_⟩
      · rw [List.find?_cons_of_neg, found]
        intro same
        refine fresh (List.mem_map.mpr ⟨step, later, ?_⟩)
        simpa using Eq.symm (eq_of_beq same)
      · intro x hx
        rw [List.flatMap_cons]
        exact List.mem_append_right _ (listed x hx)

/-- What is registered for a workflow. -/
def entryOf (s : Store) (tenant : TenantId) (w : Workflow) : RegisteredWorkflow where
  tenantId := tenant
  definition := w
  strategies := (workflowStrategies tenant w s.lastStrategyId w.steps).map
    fun (step, ss) => (step, ss.map (·.id))

theorem mem_registerWorkflow_workflows {entry : RegisteredWorkflow}
    (h : entry ∈ (s.registerWorkflow tenant w).2.workflows) :
    entry = s.entryOf tenant w ∨ entry ∈ s.workflows :=
  Ascending.mem_of_mem_put h

theorem entryOf_strategiesOf (s : Store) (tenant : TenantId) {step : Step}
    (unique : (w.steps.map (·.readableId)).Nodup) (own : step ∈ w.steps) :
    ∃ start ss, (s.entryOf tenant w).strategiesOf step = ss.map (·.id) ∧
      ss = stepStrategies tenant w step start step.limits ∧
        ∀ x ∈ ss, x ∈ (workflowStrategies tenant w s.lastStrategyId w.steps).flatMap (·.2) := by
  obtain ⟨start, ss, found, numbered, listed⟩ := workflowStrategies_find tenant w s.lastStrategyId
    unique own
  refine ⟨start, ss, ?_, numbered, listed⟩
  have named : ((fun p : String × List StrategyId => p.1 == step.readableId) ∘
      fun (p : String × List Strategy) => (p.1, p.2.map (·.id))) = (·.1 == step.readableId) := rfl
  rw [RegisteredWorkflow.strategiesOf, entryOf, List.find?_map, named, found]
  rfl

theorem registerWorkflow_registry (registry : s.Registry) (valid : w.validate = .ok ()) :
    (s.registerWorkflow tenant w).2.Registry := by
  obtain ⟨unique, limits⟩ := Workflow.validate_ok valid
  have numbered := workflowStrategies_numbered tenant w s.lastStrategyId limits
  have size := workflowStrategies_length tenant w s.lastStrategyId w.steps
  refine ⟨?_, ?_, ?_, ?_⟩
  · refine List.pairwise_append.mpr ⟨registry.numbered, numbered.ascending, ?_⟩
    intro a ha b hb
    exact Int.lt_of_le_of_lt (registry.latest a ha) (numbered.range b hb).1
  · intro x hx
    change x.id ≤ s.lastStrategyId + (List.length _ : Int)
    rw [size]
    rcases List.mem_append.mp hx with old | new
    · exact Int.le_trans (registry.latest x old) (Int.le_add_of_nonneg_right (Int.natCast_nonneg _))
    · exact (numbered.range x new).2
  · exact fun x hx => (List.mem_append.mp hx).elim (registry.positive x) (numbered.positive x)
  · intro entry hentry step own
    rcases mem_registerWorkflow_workflows hentry with rfl | old
    · obtain ⟨start, ss, ids, rfl, listed⟩ := entryOf_strategiesOf s tenant unique own
      have strategies := stepStrategies_numbered tenant w step start (limits step own)
      rw [ids]
      refine ⟨?_, by rw [List.length_map, stepStrategies_length], ?_⟩
      · exact List.pairwise_map.mpr (strategies.ascending.imp fun less => Int.ne_of_lt less)
      · intro id member
        obtain ⟨x, hx, rfl⟩ := List.mem_map.mp member
        exact ⟨x, List.mem_append_right _ (listed x hx), rfl, strategies.tenant x hx⟩
    · obtain ⟨nodup, length, offered⟩ := registry.wired entry old step own
      refine ⟨nodup, length, ?_⟩
      intro id member
      obtain ⟨x, hx, same⟩ := offered id member
      exact ⟨x, List.mem_append_left _ hx, same⟩

/-- A valid workflow is registered without harm to what is there. -/
theorem registerWorkflow_sound (sound : s.Sound) (valid : w.validate = .ok ()) :
    (s.registerWorkflow tenant w).2.Sound := by
  refine sound.of_parts (registerWorkflow_registry sound.registry valid) ?_ rfl rfl rfl rfl
  rintro owner id ⟨x, hx, same⟩
  exact ⟨x, List.mem_append_left _ hx, same⟩

end Store

end WorkflowEngine
