import WorkflowEngine.Proofs.Store.Records
import WorkflowEngine.Proofs.Workflow.Dependency

/-!
How far a run gets. A step that has heard of all its parents is never left waiting, and once the
outcome of a task has been announced every step that waits for it has heard of it. So when all tasks
of a run have ended and were announced, only those steps are left that can never start.
-/

namespace WorkflowEngine

open Fallible Store

variable {told : Part → Outcome → Prop} {a b : Agenda} {lost : List WaitingStep} {p p' : Part}
  {o : ParentOutcome} {x : WaitingStep} {r : DagRecord} {w v : RegisteredWorkflow}

namespace Agenda

/-- No step waits that could start. -/
def Unready (a : Agenda) : Prop := ∀ x ∈ a.waiting, x.isReady = false

/-- All steps that wait for the task have heard how it ended. -/
def Informed (p : Part) (a : Agenda) : Prop :=
  ∀ x ∈ a.waiting, x.awaits p = true → ∃ o ∈ x.outcomes, o.parent = p.step

theorem Advance.unready (silent : ∀ p o, ¬ told p o) (step : Advance told a lost b)
    (unready : a.Unready) : b.Unready := by
  cases step with
  | alone => exact unready
  | opened =>
    intro x member
    rcases List.mem_append.mp member with old | new
    · exact unready x old
    · obtain ⟨step, child, rfl⟩ := List.mem_map.mp new
      have parents : step.parents ≠ [] := by
        simpa [Step.isRoot] using (List.mem_filter.mp child).2
      obtain ⟨q, listed⟩ := List.exists_mem_of_ne_nil _ parents
      rw [Bool.eq_false_iff, ne_eq, WaitingStep.isReady_iff]
      intro ready
      obtain ⟨o, none, _⟩ := ready q listed
      exact List.not_mem_nil none
  | heard _ said => exact absurd said (silent _ _)
  | reordered same => exact fun x member => unready x (same.mem_iff.mpr member)
  | started here ready | abandoned here ready =>
    rw [unready _ (here ▸ List.mem_cons_self)] at ready
    cases ready

theorem Advances.unready (silent : ∀ p o, ¬ told p o) (advances : Advances told a lost b)
    (unready : a.Unready) : b.Unready := by
  induction advances with
  | none => exact unready
  | more _ step ih => exact step.unready silent ih

theorem Advance.informed (step : Advance told a lost b) (sound : a.Sound) (known : p ∈ a.parts)
    (informed : a.Informed p) : b.Informed p := by
  cases step with
  | alone => exact informed
  | @opened w r roots _ _ next _ _ =>
    intro x member awaits
    rcases List.mem_append.mp member with old | new
    · exact informed x old awaits
    · -- The run is a new one, so the task belongs to another.
      obtain ⟨step, _, rfl⟩ := List.mem_map.mp new
      exact absurd (WaitingStep.awaits_iff.mp awaits).2.1 (sound.part_ne_next next known)
  | heard =>
    intro x member awaits
    obtain ⟨x', old, rfl⟩ := List.mem_map.mp member
    refine WaitingStep.hear_keeps (informed x' old ?_)
    simpa [WaitingStep.awaits_iff] using awaits
  | reordered same => exact fun x member => informed x (same.mem_iff.mpr member)
  | started here | abandoned here =>
    exact fun x member => informed x (here ▸ List.mem_cons_of_mem _ member)

theorem Advance.parts (step : Advance told a lost b) : a.parts <+: b.parts := by
  cases step with
  | alone | opened | started => exact List.prefix_append _ _
  | heard | reordered | abandoned => exact List.prefix_rfl

theorem Advances.parts (advances : Advances told a lost b) : a.parts <+: b.parts := by
  induction advances with
  | none => exact List.prefix_rfl
  | more _ step ih => exact ih.trans step.parts

theorem Advances.informed (advances : Advances told a lost b) (sound : a.Sound) (known : p ∈ a.parts)
    (informed : a.Informed p) : b.Informed p := by
  induction advances with
  | none => exact informed
  | more before step ih =>
    exact step.informed (before.sound sound) (before.parts.subset known) ih

/-! ### A run of a workflow that stays registered -/

/-- The run is of the workflow as it is registered: each step of the workflow has a task in the run or
waits in it for its parents, and only steps that can start have tasks. -/
structure Ongoing (r : DagRecord) (w : RegisteredWorkflow) (a : Agenda) : Prop where
  record : r ∈ a.runs
  of : r.Of w
  known : w ∈ a.workflows
  parts : ∀ p ∈ a.parts, p.dagId = some r.dag.id →
    p.tenantId = w.tenantId ∧ Acc w.definition.Parent p.step
  waits : ∀ x ∈ a.waiting, x.dagId = r.dag.id → x.tenantId = w.tenantId ∧
    ∃ step ∈ w.definition.steps, x.step = step.readableId ∧ x.parents = step.parents
  heard : ∀ x ∈ a.waiting, x.dagId = r.dag.id → ∀ o ∈ x.outcomes,
    ∃ p ∈ a.parts, p.dagId = some r.dag.id ∧ p.step = o.parent
  covered : ∀ step ∈ w.definition.steps,
    (∃ p ∈ a.parts, p.dagId = some r.dag.id ∧ p.step = step.readableId) ∨
      ∃ x ∈ a.waiting, x.dagId = r.dag.id ∧ x.step = step.readableId

theorem Ongoing.defines (ongoing : a.Ongoing r w) (sound : a.Sound) (member : x ∈ a.waiting)
    (mine : x.dagId = r.dag.id) : a.defines x = true := by
  obtain ⟨owner, step, own, name, _⟩ := ongoing.waits x member mine
  have workflow : a.workflow? x = some w := by
    rw [workflow?, mine, sound.find_run ongoing.record, Option.bind_eq_bind, Option.bind_some]
    have found := sound.catalogued.find_eq ongoing.known
    rw [owner, ongoing.of.name]
    exact found
  have defined : (w.definition.step? x.step).isSome = true := by
    rw [Workflow.step?, List.find?_isSome]
    exact ⟨step, own, by simp [name]⟩
  rw [Agenda.defines, workflow, Option.any_some, defined]

/-- What happens to other runs changes nothing. -/
theorem Ongoing.apart (ongoing : a.Ongoing r w) (runs : a.runs ⊆ b.runs)
    (workflows : b.workflows = a.workflows)
    (parts : ∀ p, p.dagId = some r.dag.id → (p ∈ b.parts ↔ p ∈ a.parts))
    (waiting : ∀ x, x.dagId = r.dag.id → (x ∈ b.waiting ↔ x ∈ a.waiting)) : b.Ongoing r w where
  record := runs ongoing.record
  of := ongoing.of
  known := workflows ▸ ongoing.known
  parts p member mine := ongoing.parts p ((parts p mine).mp member) mine
  waits x member mine := ongoing.waits x ((waiting x mine).mp member) mine
  heard x member mine o listed := by
    obtain ⟨p, known, run, step⟩ := ongoing.heard x ((waiting x mine).mp member) mine o listed
    exact ⟨p, (parts p run).mpr known, run, step⟩
  covered step own := by
    rcases ongoing.covered step own with ⟨p, known, run, name⟩ | ⟨x, waits, run, name⟩
    · exact Or.inl ⟨p, (parts p run).mpr known, run, name⟩
    · exact Or.inr ⟨x, (waiting x run).mpr waits, run, name⟩

theorem Ongoing.hear (ongoing : a.Ongoing r w) (known : p ∈ a.parts) (of : o.parent = p.step) :
    Ongoing r w { a with waiting := a.waiting.map (·.hear p o) } where
  record := ongoing.record
  of := ongoing.of
  known := ongoing.known
  parts := ongoing.parts
  waits x member mine := by
    obtain ⟨x', old, rfl⟩ := List.mem_map.mp member
    simpa using ongoing.waits x' old (by simpa using mine)
  heard x member mine o' listed := by
    obtain ⟨x', old, rfl⟩ := List.mem_map.mp member
    rw [WaitingStep.hear_dagId] at mine
    rcases WaitingStep.mem_hear listed with before | ⟨rfl, awaits⟩
    · exact ongoing.heard x' old mine o' before
    · exact ⟨p, known, mine ▸ (WaitingStep.awaits_iff.mp awaits).2.1, of.symm⟩
  covered step own := by
    refine (ongoing.covered step own).imp_right fun ⟨x, waits, run, name⟩ => ?_
    exact ⟨x.hear p o, List.mem_map_of_mem waits, by simpa using run, by simpa using name⟩

/-- A step starts when there is word of all its parents, so these have tasks. -/
theorem Ongoing.acc_ready (ongoing : a.Ongoing r w) (sound : a.Sound) (member : x ∈ a.waiting)
    (mine : x.dagId = r.dag.id) (ready : x.isReady = true) : Acc w.definition.Parent x.step := by
  obtain ⟨_, step, own, name, parents⟩ := ongoing.waits x member mine
  have valid := sound.catalogued.valid w ongoing.known
  refine Acc.intro _ fun q parent => ?_
  rw [name, Workflow.parent_iff valid own, ← parents] at parent
  obtain ⟨o, listed, rfl⟩ := WaitingStep.isReady_iff.mp ready q parent
  obtain ⟨p, known, run, step⟩ := ongoing.heard x member mine o listed
  exact step ▸ (ongoing.parts p known run).2

theorem Ongoing.start {rest : List WaitingStep} (ongoing : a.Ongoing r w) (sound : a.Sound)
    (here : a.waiting = x :: rest) (ready : x.isReady = true) (tenant : p.tenantId = x.tenantId)
    (run : p.dagId = some x.dagId) (step : p.step = x.step) :
    Ongoing r w { a.add [p] with waiting := rest } where
  record := ongoing.record
  of := ongoing.of
  known := ongoing.known
  parts p' member mine := by
    rcases List.mem_append.mp member with old | new
    · exact ongoing.parts p' old mine
    · have first : x ∈ a.waiting := here ▸ List.mem_cons_self
      rw [List.mem_singleton.mp new] at mine ⊢
      have same : x.dagId = r.dag.id := Option.some.inj (run.symm.trans mine)
      rw [tenant, step]
      exact ⟨(ongoing.waits x first same).1, ongoing.acc_ready sound first same ready⟩
  waits y member := ongoing.waits y (here ▸ List.mem_cons_of_mem x member)
  heard y member mine o listed := by
    obtain ⟨p', known, found⟩ := ongoing.heard y (here ▸ List.mem_cons_of_mem x member) mine o listed
    exact ⟨p', List.mem_append_left _ known, found⟩
  covered own listed := by
    rcases ongoing.covered own listed with ⟨p', known, found⟩ | ⟨y, waits, mine, name⟩
    · exact Or.inl ⟨p', List.mem_append_left _ known, found⟩
    · rw [here] at waits
      rcases List.mem_cons.mp waits with rfl | later
      · have new : p ∈ a.parts ++ [p] := List.mem_append_right _ (List.mem_singleton.mpr rfl)
        exact Or.inl ⟨p, new, run.trans (congrArg some mine), step.trans name⟩
      · exact Or.inr ⟨y, later, mine, name⟩

theorem Advance.ongoing (step : Advance told a lost b) (sound : a.Sound) (ongoing : a.Ongoing r w) :
    b.Ongoing r w := by
  cases step with
  | @alone p single =>
    refine ongoing.apart (List.Subset.refl _) rfl (fun p' mine => ?_) fun _ _ => Iff.rfl
    have other : p' ≠ p := fun same => by simp [same, single] at mine
    simp [add, other]
  | @opened v r' roots _ _ next _ own =>
    have other : r.dag.id ≠ r'.dag.id := sound.run_ne_next next ongoing.record
    refine ongoing.apart (List.subset_append_left _ _) rfl (fun p mine => ?_) fun x mine => ?_
    · have new : p ∉ roots := fun new => other (Option.some.inj (mine.symm.trans (own p new).2))
      simp [add, new]
    · have new : x ∉ v.definition.childSteps.map (WaitingStep.ofStep r') := by
        intro new
        obtain ⟨step, _, rfl⟩ := List.mem_map.mp new
        exact other mine.symm
      simp [new]
  | heard known _ of => exact ongoing.hear known of
  | reordered same =>
    exact ongoing.apart (List.Subset.refl _) rfl (fun _ _ => Iff.rfl) fun _ _ => same.mem_iff.symm
  | started here ready _ tenant run step => exact ongoing.start sound here ready tenant run step
  | @abandoned x rest here _ undefined =>
    refine ongoing.apart (List.Subset.refl _) rfl (fun _ _ => Iff.rfl) fun y mine => ?_
    have other : y ≠ x := by
      rintro rfl
      rw [ongoing.defines sound (here ▸ List.mem_cons_self) mine] at undefined
      cases undefined
    simp [here, other]

theorem Advances.ongoing (advances : Advances told a lost b) (sound : a.Sound)
    (ongoing : a.Ongoing r w) : b.Ongoing r w := by
  induction advances with
  | none => exact ongoing
  | more before step ih => exact step.ongoing (before.sound sound) ih

theorem Ongoing.opened {roots : List Part} (sound : a.Sound) (known : w ∈ a.workflows) (of : r.Of w)
    (next : r.dag.id = a.lastRun + 1)
    (steps : roots.map (·.step) = w.definition.rootSteps.map (·.readableId))
    (own : ∀ p ∈ roots, p.tenantId = w.tenantId ∧ p.dagId = some r.dag.id) :
    Ongoing r w { a.add roots with
      runs := a.runs ++ [r]
      waiting := a.waiting ++ w.definition.childSteps.map (.ofStep r)
      lastRun := r.dag.id } where
  record := List.mem_append_right _ (List.mem_singleton.mpr rfl)
  of := of
  known := known
  parts p member mine := by
    rcases List.mem_append.mp member with old | new
    · exact absurd mine (sound.part_ne_next next old)
    · have named : p.step ∈ w.definition.rootSteps.map (·.readableId) :=
        steps ▸ List.mem_map_of_mem new
      obtain ⟨step, root, name⟩ := List.mem_map.mp named
      have valid := sound.catalogued.valid w known
      exact ⟨(own p new).1, name ▸ Workflow.acc_root valid root⟩
  waits x member mine := by
    rcases List.mem_append.mp member with old | new
    · exact absurd mine (sound.waiting_ne_next next old)
    · obtain ⟨step, child, rfl⟩ := List.mem_map.mp new
      exact ⟨of.tenant, step, (List.mem_filter.mp child).1, rfl, rfl⟩
  heard x member mine o listed := by
    rcases List.mem_append.mp member with old | new
    · exact absurd mine (sound.waiting_ne_next next old)
    · obtain ⟨step, _, rfl⟩ := List.mem_map.mp new
      cases listed
  covered step listed := by
    by_cases root : step.isRoot = true
    · have named : step.readableId ∈ roots.map (·.step) := by
        rw [steps]
        exact List.mem_map_of_mem (List.mem_filter.mpr ⟨listed, root⟩)
      obtain ⟨p, new, name⟩ := List.mem_map.mp named
      exact Or.inl ⟨p, List.mem_append_right _ new, (own p new).2, name⟩
    · have child : step ∈ w.definition.childSteps := List.mem_filter.mpr ⟨listed, by simpa using root⟩
      exact Or.inr ⟨.ofStep r step, List.mem_append_right _ (List.mem_map_of_mem child), rfl, rfl⟩

/-- A run that is new is of a workflow that is registered. -/
theorem Advance.new (step : Advance told a lost b) (sound : a.Sound) (new : r ∈ b.runs) :
    r ∈ a.runs ∨ ∃ w, b.Ongoing r w := by
  cases step with
  | opened known of next steps own =>
    rcases List.mem_append.mp new with old | new
    · exact Or.inl old
    · obtain rfl := List.mem_singleton.mp new
      exact Or.inr ⟨_, .opened sound known of next steps own⟩
  | alone | heard | reordered | started | abandoned => exact Or.inl new

theorem Advances.new (advances : Advances told a lost b) (sound : a.Sound) (new : r ∈ b.runs) :
    r ∈ a.runs ∨ ∃ w, b.Ongoing r w := by
  induction advances with
  | none => exact Or.inl new
  | more before step ih =>
    rcases step.new (before.sound sound) new with old | opened
    · exact (ih old).imp_right fun ⟨w, ongoing⟩ => ⟨w, step.ongoing (before.sound sound) ongoing⟩
    · exact Or.inr opened

/-! ### When all tasks have ended -/

/-- A step that comes after no cycle waits no more: its parents do not, so it has heard of them all. -/
theorem Ongoing.waiting_not_acc (ongoing : a.Ongoing r w) (sound : a.Sound) (unready : a.Unready)
    (informed : ∀ p ∈ a.parts, p.dagId = some r.dag.id → a.Informed p) (member : x ∈ a.waiting)
    (mine : x.dagId = r.dag.id) : ¬ Acc w.definition.Parent x.step := by
  intro acc
  generalize named : x.step = q at acc
  induction acc generalizing x with
  | intro q _ ih =>
    obtain ⟨owner, step, own, name, parents⟩ := ongoing.waits x member mine
    have valid := sound.catalogued.valid w ongoing.known
    have waits := unready x member
    rw [Bool.eq_false_iff, ne_eq, WaitingStep.isReady_iff] at waits
    refine waits fun q' listed => ?_
    obtain ⟨parent, known, rfl⟩ := Workflow.exists_parent valid own (parents ▸ listed)
    rcases ongoing.covered parent known with ⟨p, part, run, at_⟩ | ⟨y, waits, mine', at_⟩
    · have awaits : x.awaits p = true := by
        rw [WaitingStep.awaits_iff, owner, (ongoing.parts p part run).1, mine, at_]
        exact ⟨rfl, run, listed⟩
      exact at_ ▸ informed p part run x member awaits
    · refine absurd at_ (ih parent.readableId ?_ waits mine')
      exact ⟨step, own, name.symm.trans named, parents ▸ listed⟩

theorem Ongoing.waits_iff (ongoing : a.Ongoing r w) (sound : a.Sound) (unready : a.Unready)
    (informed : ∀ p ∈ a.parts, p.dagId = some r.dag.id → a.Informed p) (q : String) :
    (∃ x ∈ a.waiting, x.dagId = r.dag.id ∧ x.step = q) ↔
      ∃ step ∈ w.definition.steps, step.readableId = q ∧ w.definition.BehindCycle q := by
  constructor
  · rintro ⟨x, member, mine, rfl⟩
    obtain ⟨_, step, own, name, _⟩ := ongoing.waits x member mine
    have behind := ongoing.waiting_not_acc sound unready informed member mine
    rw [Workflow.acc_iff, not_not] at behind
    exact ⟨step, own, name.symm, behind⟩
  · rintro ⟨step, own, rfl, behind⟩
    refine (ongoing.covered step own).resolve_left ?_
    rintro ⟨p, part, run, name⟩
    exact Workflow.acc_iff.mp (name ▸ (ongoing.parts p part run).2) behind

end Agenda

end WorkflowEngine
