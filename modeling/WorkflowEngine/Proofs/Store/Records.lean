import WorkflowEngine.Proofs.Store.Advance

/-!
The runs on record. Whatever a run is made of names it, each run is on record once, and under the name
of its workflow one is registered as long as the store lasts.
-/

namespace WorkflowEngine

open Fallible Store

namespace Agenda

structure Sound (a : Agenda) : Prop where
  catalogued : Catalogued a.workflows
  ascending : a.runs.Pairwise fun r r' => r.dag.id < r'.dag.id
  latest : ∀ r ∈ a.runs, r.dag.id ≤ a.lastRun
  parts : ∀ p ∈ a.parts, ∀ d, p.dagId = some d → ∃ r ∈ a.runs, r.dag.id = d
  waiting : ∀ x ∈ a.waiting, ∃ r ∈ a.runs, r.dag.id = x.dagId ∧ r.dag.tenantId = x.tenantId
  registered : ∀ r ∈ a.runs, ∃ w ∈ a.workflows,
    w.tenantId = r.dag.tenantId ∧ w.definition.name = r.workflowName

variable {told : Part → Outcome → Prop} {a b : Agenda} {lost : List WaitingStep} {x : WaitingStep}
  {r r' : DagRecord}

theorem Sound.run_unique (sound : a.Sound) (hr : r ∈ a.runs) (hr' : r' ∈ a.runs)
    (same : r.dag.id = r'.dag.id) : r = r' := by
  have nodup : (a.runs.map (·.dag.id)).Nodup :=
    List.pairwise_map.mpr (sound.ascending.imp fun less => Int.ne_of_lt less)
  exact List.inj_on_of_nodup_map nodup hr hr' same

theorem Sound.find_run (sound : a.Sound) (hr : r ∈ a.runs) :
    a.runs.find? (·.dag.id == r.dag.id) = some r := by
  cases found : a.runs.find? (·.dag.id == r.dag.id) with
  | none =>
    have absent := List.find?_eq_none.mp found r hr
    simp at absent
  | some r' =>
    have same : r'.dag.id = r.dag.id := by simpa using List.find?_some found
    rw [sound.run_unique (List.mem_of_find?_eq_some found) hr same]

theorem Sound.waiting_le (sound : a.Sound) {x : WaitingStep} (member : x ∈ a.waiting) :
    x.dagId ≤ a.lastRun := by
  obtain ⟨r, hr, id, _⟩ := sound.waiting x member
  exact id ▸ sound.latest r hr

theorem ne_next {d last next : Int} (known : d ≤ last) (following : next = last + 1) : d ≠ next := by
  omega

section

variable {d : DagId} (sound : a.Sound) (next : d = a.lastRun + 1)
include sound next

theorem Sound.run_ne_next (hr : r ∈ a.runs) : r.dag.id ≠ d := ne_next (sound.latest r hr) next

theorem Sound.part_ne_next {p : Part} (hp : p ∈ a.parts) : p.dagId ≠ some d := by
  intro mine
  obtain ⟨r, hr, id⟩ := sound.parts p hp d mine
  exact sound.run_ne_next next hr id

theorem Sound.waiting_ne_next (hx : x ∈ a.waiting) : x.dagId ≠ d :=
  ne_next (sound.waiting_le hx) next

end

/-! ### One run -/

def partsOf (a : Agenda) (d : DagId) : List Part := a.parts.filter (·.dagId == some d)

def waitingOf (a : Agenda) (d : DagId) : List WaitingStep := a.waiting.filter (·.dagId == d)

section

variable {d : DagId} {roots : List Part} {steps : List Step}

theorem parts_opened_other (own : ∀ p ∈ roots, p.dagId = some r.dag.id) (other : r.dag.id ≠ d) :
    (a.parts ++ roots).filter (·.dagId == some d) = a.partsOf d := by
  have none : roots.filter (·.dagId == some d) = [] := by
    rw [List.filter_eq_nil_iff]
    intro p hp
    simpa [own p hp] using other
  rw [List.filter_append, none, List.append_nil, partsOf]

theorem waiting_opened_other (other : r.dag.id ≠ d) :
    (a.waiting ++ steps.map (WaitingStep.ofStep r)).filter (·.dagId == d) = a.waitingOf d := by
  have none : (steps.map (WaitingStep.ofStep r)).filter (·.dagId == d) = [] := by
    simp [List.filter_eq_nil_iff, WaitingStep.ofStep, other]
  rw [List.filter_append, none, List.append_nil, waitingOf]

variable (sound : a.Sound) (next : r.dag.id = a.lastRun + 1)
include sound next

theorem Sound.parts_opened (own : ∀ p ∈ roots, p.dagId = some r.dag.id) :
    (a.parts ++ roots).filter (·.dagId == some r.dag.id) = roots := by
  have none : a.parts.filter (·.dagId == some r.dag.id) = [] := by
    rw [List.filter_eq_nil_iff]
    exact fun p hp mine => sound.part_ne_next next hp (eq_of_beq mine)
  rw [List.filter_append, none, List.nil_append, List.filter_eq_self]
  exact fun p hp => by simp [own p hp]

theorem Sound.waiting_opened :
    (a.waiting ++ steps.map (WaitingStep.ofStep r)).filter (·.dagId == r.dag.id) = steps.map (WaitingStep.ofStep r) := by
  have none : a.waiting.filter (·.dagId == r.dag.id) = [] := by
    rw [List.filter_eq_nil_iff]
    exact fun x hx mine => sound.waiting_ne_next next hx (eq_of_beq mine)
  rw [List.filter_append, none, List.nil_append]
  simp [List.filter_eq_self, WaitingStep.ofStep]

end

/-- The step of a run that waits has a workflow, whatever has been registered since. -/
theorem Sound.workflow_isSome (sound : a.Sound) (member : x ∈ a.waiting) :
    (a.workflow? x).isSome = true := by
  obtain ⟨r, hr, id, owner⟩ := sound.waiting x member
  obtain ⟨w, known, tenant, named⟩ := sound.registered r hr
  rw [workflow?, ← id, sound.find_run hr, Option.bind_eq_bind, Option.bind_some, List.find?_isSome]
  exact ⟨w, known, by simp [tenant, owner, named]⟩

theorem Advance.sound (step : Advance told a lost b) (sound : a.Sound) : b.Sound := by
  cases step with
  | alone single =>
    refine { sound with parts := fun p member d run => ?_ }
    rcases List.mem_append.mp member with old | new
    · exact sound.parts p old d run
    · rw [List.mem_singleton.mp new, single] at run
      cases run
  | @opened w r roots known of next steps own =>
    have later : ∀ r' ∈ a.runs, r'.dag.id < r.dag.id := by
      intro r' old
      rw [next]
      exact Int.lt_add_one_of_le (sound.latest r' old)
    have here : r ∈ a.runs ++ [r] := List.mem_append_right _ (List.mem_singleton.mpr rfl)
    refine ⟨sound.catalogued, ?_, ?_, ?_, ?_, ?_⟩
    · refine List.pairwise_append.mpr ⟨sound.ascending, List.pairwise_singleton _ _, ?_⟩
      intro r' old r'' new
      rw [List.mem_singleton.mp new]
      exact later r' old
    · intro r' member
      rcases List.mem_append.mp member with old | new
      · exact Int.le_of_lt (later r' old)
      · exact Int.le_of_eq (congrArg (·.dag.id) (List.mem_singleton.mp new))
    · intro p member d run
      rcases List.mem_append.mp member with old | new
      · obtain ⟨r', hr', id⟩ := sound.parts p old d run
        exact ⟨r', List.mem_append_left _ hr', id⟩
      · exact ⟨r, here, Option.some.inj ((own p new).2.symm.trans run)⟩
    · intro x member
      rcases List.mem_append.mp member with old | new
      · obtain ⟨r', hr', id⟩ := sound.waiting x old
        exact ⟨r', List.mem_append_left _ hr', id⟩
      · obtain ⟨step, _, rfl⟩ := List.mem_map.mp new
        exact ⟨r, here, rfl, rfl⟩
    · intro r' member
      rcases List.mem_append.mp member with old | new
      · exact sound.registered r' old
      · rw [List.mem_singleton.mp new]
        exact ⟨w, known, of.tenant.symm, of.name.symm⟩
  | heard known said of =>
    refine { sound with waiting := fun x member => ?_ }
    obtain ⟨x', old, rfl⟩ := List.mem_map.mp member
    simpa using sound.waiting x' old
  | reordered same => exact { sound with waiting := fun x member => sound.waiting x (same.mem_iff.mpr member) }
  | @started x rest p here ready defined tenant run step cancelled =>
    have first : x ∈ a.waiting := here ▸ List.mem_cons_self
    refine { sound with parts := fun p' member d run' => ?_, waiting := fun y member => ?_ }
    · rcases List.mem_append.mp member with old | new
      · exact sound.parts p' old d run'
      · obtain ⟨r, hr, id, _⟩ := sound.waiting x first
        rw [List.mem_singleton.mp new, run] at run'
        exact ⟨r, hr, id.trans (Option.some.inj run')⟩
    · exact sound.waiting y (here ▸ List.mem_cons_of_mem x member)
  | abandoned here ready undefined =>
    exact { sound with waiting := fun y member => sound.waiting y (here ▸ List.mem_cons_of_mem _ member) }

theorem Advances.sound (advances : Advances told a lost b) (sound : a.Sound) : b.Sound := by
  induction advances with
  | none => exact sound
  | more _ step ih => exact step.sound ih

theorem Sound.register {entry : RegisteredWorkflow} (sound : a.Sound)
    (valid : entry.definition.validate = .ok ()) :
    { a with workflows := Ascending.put RegisteredWorkflow.before entry a.workflows }.Sound := by
  refine { sound with catalogued := sound.catalogued.register valid, registered := fun r hr => ?_ }
  obtain ⟨w, known, owner, named⟩ := sound.registered r hr
  obtain ⟨v, listed, owner', named'⟩ :
      ∃ v ∈ Ascending.put RegisteredWorkflow.before entry a.workflows, _ := exists_register known
  exact ⟨v, listed, owner'.trans owner, named'.trans named⟩

end Agenda

namespace Store

variable {s s' : Store} {cmd : Command} {evicted more : List Attempt}

theorem agenda_empty (internalRetries : Int) : ({ internalRetries } : Store).agenda.Sound :=
  ⟨⟨.nil, by simp [agenda]⟩, .nil, by simp [agenda], by simp [agenda], by simp [agenda],
    by simp [agenda]⟩

theorem obey_agendaSound (sound : s.Sound) (orderly : s.agenda.Sound)
    (done : s.obey cmd = .ok (more, s')) : s'.agenda.Sound := by
  rcases obey_agenda sound done with ⟨owner, w, _, valid, agenda⟩ | advances
  · rw [agenda]
    exact orderly.register valid
  · exact advances.sound orderly

theorem Reachable.agenda (reached : Reachable evicted s) : s.agenda.Sound := by
  induction reached with
  | empty internalRetries => exact agenda_empty internalRetries
  | after before _ done ih => exact obey_agendaSound before.sound ih done

end Store

end WorkflowEngine
