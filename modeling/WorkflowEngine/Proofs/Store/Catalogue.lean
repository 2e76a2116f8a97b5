import WorkflowEngine.Proofs.Store.Registration

/-!
The workflows that are registered. All are valid, and no two of a tenant have one name, so a name finds
the one that was registered under it last.
-/

namespace WorkflowEngine

namespace RegisteredWorkflow

variable {a b c : RegisteredWorkflow}

theorem before_iff : a.before b = true ↔ a.tenantId.value < b.tenantId.value ∨
    (a.tenantId = b.tenantId ∧ a.definition.name < b.definition.name) := by
  simp [before]

theorem before_trans (first : a.before b = true) (second : b.before c = true) : a.before c = true := by
  rw [before_iff] at *
  rcases first with less | ⟨same, less⟩
  · rcases second with less' | ⟨same', _⟩
    · exact Or.inl (Nat.lt_trans less less')
    · exact Or.inl (same' ▸ less)
  · rcases second with less' | ⟨same', less'⟩
    · exact Or.inl (same ▸ less')
    · exact Or.inr ⟨same.trans same', String.lt_trans less less'⟩

/-- Of two workflows, one comes before the other unless they are of one tenant and one name. -/
theorem eq_key (notLess : a.before b = false) (notGreater : b.before a = false) :
    a.tenantId = b.tenantId ∧ a.definition.name = b.definition.name := by
  rw [Bool.eq_false_iff, ne_eq, before_iff, not_or, not_and] at notLess notGreater
  have value : a.tenantId.value = b.tenantId.value := by omega
  have owner : a.tenantId = b.tenantId := congrArg Identifier.mk value
  refine ⟨owner, String.le_antisymm ?_ ?_⟩
  · exact String.not_lt.mp (notGreater.2 owner.symm)
  · exact String.not_lt.mp (notLess.2 owner)

theorem before_level (notLess : a.before b = false) (notGreater : b.before a = false)
    (less : b.before c = true) : a.before c = true := by
  obtain ⟨owner, name⟩ := eq_key notLess notGreater
  rw [before_iff] at less ⊢
  rwa [owner, name]

end RegisteredWorkflow

namespace Store

variable {s : Store} {tenant : TenantId} {name : String} {w v : RegisteredWorkflow}
  {ws : List RegisteredWorkflow}

/-- Valid workflows in the order of their tenants and names. -/
structure Catalogued (ws : List RegisteredWorkflow) : Prop where
  ordered : ws.Pairwise fun a b => a.before b = true
  valid : ∀ w ∈ ws, w.definition.validate = .ok ()

theorem Catalogued.unique (catalogued : Catalogued ws) (hv : v ∈ ws) (hw : w ∈ ws)
    (owner : v.tenantId = w.tenantId) (named : v.definition.name = w.definition.name) : v = w := by
  have keys : (ws.map fun w => (w.tenantId, w.definition.name)).Nodup := by
    refine List.pairwise_map.mpr (catalogued.ordered.imp fun {a b} less same => ?_)
    obtain ⟨owner, named⟩ := Prod.mk.inj same
    rw [RegisteredWorkflow.before_iff, owner, named] at less
    rcases less with less | ⟨_, less⟩
    · exact Nat.lt_irrefl _ less
    · exact String.lt_irrefl _ less
  exact List.inj_on_of_nodup_map keys hv hw (Prod.ext owner named)

theorem workflow?_mem (found : s.workflow? tenant name = some w) :
    w ∈ s.workflows ∧ w.tenantId = tenant ∧ w.definition.name = name := by
  have fits := List.find?_some found
  rw [Bool.and_eq_true, beq_iff_eq, beq_iff_eq] at fits
  exact ⟨List.mem_of_find?_eq_some found, fits⟩

/-- A workflow is found under its name. -/
theorem Catalogued.find_eq (catalogued : Catalogued ws) (known : w ∈ ws) :
    (ws.find? fun v => v.tenantId == w.tenantId && v.definition.name == w.definition.name) = some w := by
  cases found : ws.find? fun v =>
      v.tenantId == w.tenantId && v.definition.name == w.definition.name with
  | none =>
    have absent := List.find?_eq_none.mp found w known
    simp at absent
  | some v =>
    have fits := List.find?_some found
    rw [Bool.and_eq_true, beq_iff_eq, beq_iff_eq] at fits
    rw [catalogued.unique (List.mem_of_find?_eq_some found) known fits.1 fits.2]

theorem Catalogued.register {entry : RegisteredWorkflow} (catalogued : Catalogued ws)
    (valid : entry.definition.validate = .ok ()) :
    Catalogued (Ascending.put RegisteredWorkflow.before entry ws) := by
  refine ⟨Ascending.put_pairwise ?_ ?_ catalogued.ordered, ?_⟩
  · exact fun _ _ => RegisteredWorkflow.before_trans
  · exact fun _ _ => RegisteredWorkflow.before_level
  · intro w member
    rcases Ascending.mem_of_mem_put member with rfl | old
    · exact valid
    · exact catalogued.valid w old

/-- What is registered under another key stays. -/
theorem mem_register {entry : RegisteredWorkflow} (known : w ∈ ws)
    (other : ¬ (w.tenantId = entry.tenantId ∧ w.definition.name = entry.definition.name)) :
    w ∈ Ascending.put RegisteredWorkflow.before entry ws := by
  refine Ascending.mem_put_of_mem known ?_
  by_contra neither
  rw [not_or, Bool.not_eq_true, Bool.not_eq_true] at neither
  exact other (RegisteredWorkflow.eq_key neither.2 neither.1)

/-- Under each key that is taken there is a workflow from then on. -/
theorem exists_register {entry : RegisteredWorkflow} (known : w ∈ ws) :
    ∃ v ∈ Ascending.put RegisteredWorkflow.before entry ws,
      v.tenantId = w.tenantId ∧ v.definition.name = w.definition.name := by
  by_cases same : w.tenantId = entry.tenantId ∧ w.definition.name = entry.definition.name
  · exact ⟨entry, Ascending.mem_put_self, same.1.symm, same.2.symm⟩
  · exact ⟨w, mem_register known same, rfl, rfl⟩

end Store

end WorkflowEngine
