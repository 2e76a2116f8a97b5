import Mathlib.Data.Fintype.Card
import Mathlib.Data.Set.Finite.List
import WorkflowEngine.Proofs.Store.Registration

/-!
Which steps of a workflow can start. A step starts after its parents, so one that lies on a cycle of
parents, or behind one, never does; all others can be put into an order.
-/

namespace WorkflowEngine.Workflow

open Relation

variable {w : Workflow} {p q : String} {step : Step}

/-- The step named first is a parent of the other. -/
def Parent (w : Workflow) (p q : String) : Prop :=
  ∃ step ∈ w.steps, step.readableId = q ∧ p ∈ step.parents

/-- The step comes after one that comes after itself. -/
def BehindCycle (w : Workflow) (q : String) : Prop :=
  ∃ p, ReflTransGen w.Parent p q ∧ TransGen w.Parent p p

theorem acc_of_path (acc : Acc w.Parent q) (path : ReflTransGen w.Parent p q) : Acc w.Parent p := by
  induction path using ReflTransGen.head_induction_on with
  | refl => exact acc
  | head parent _ ih => exact ih.inv parent

theorem irrefl_of_acc (acc : Acc w.Parent p) : ¬ TransGen w.Parent p p := by
  induction acc.transGen with
  | intro p _ ih => exact fun cycle => ih p cycle acc cycle

/-- There are only so many steps, so parents can be followed up for ever only on a cycle. -/
theorem acc_of_not_behindCycle (free : ¬ w.BehindCycle q) : Acc w.Parent q := by
  let Above := {p // ReflTransGen w.Parent p q}
  let Earlier (a b : Above) : Prop := TransGen w.Parent a.1 b.1
  have finite : Finite Above := by
    refine Set.Finite.subset (List.finite_toSet (q :: w.steps.flatMap (·.parents))) fun p path => ?_
    rcases ReflTransGen.cases_head path with rfl | ⟨next, ⟨step, own, _, listed⟩, _⟩
    · exact List.mem_cons_self
    · exact List.mem_cons_of_mem _ (List.mem_flatMap.mpr ⟨step, own, listed⟩)
  have transitive : IsTrans Above Earlier := ⟨fun _ _ _ => TransGen.trans⟩
  have irreflexive : Std.Irrefl Earlier := ⟨fun a cycle => free ⟨a.1, a.2, cycle⟩⟩
  have ordered : WellFounded Earlier := Finite.wellFounded_of_trans_of_irrefl Earlier
  have all : ∀ a : Above, Acc w.Parent a.1 := by
    intro a
    induction a using ordered.induction with
    | _ a ih => exact Acc.intro _ fun p parent => ih ⟨p, .head parent a.2⟩ (.single parent)
  exact all ⟨q, .refl⟩

theorem acc_iff : Acc w.Parent q ↔ ¬ w.BehindCycle q := by
  refine ⟨fun acc behind => ?_, acc_of_not_behindCycle⟩
  obtain ⟨p, path, cycle⟩ := behind
  exact irrefl_of_acc (acc_of_path acc path) cycle

/-! ### Valid workflows -/

theorem step_unique (valid : w.validate = .ok ()) {other : Step} (own : step ∈ w.steps)
    (known : other ∈ w.steps) (same : step.readableId = other.readableId) : step = other :=
  List.inj_on_of_nodup_map (validate_steps valid).1 own known same

theorem parent_iff (valid : w.validate = .ok ()) (own : step ∈ w.steps) :
    w.Parent p step.readableId ↔ p ∈ step.parents := by
  constructor
  · rintro ⟨other, known, same, listed⟩
    rwa [step_unique valid own known same.symm]
  · exact fun listed => ⟨step, own, rfl, listed⟩

theorem acc_root (valid : w.validate = .ok ()) (root : step ∈ w.rootSteps) :
    Acc w.Parent step.readableId := by
  obtain ⟨own, first⟩ := List.mem_filter.mp root
  refine Acc.intro _ fun p parent => ?_
  have listed := (parent_iff valid own).mp parent
  rw [List.isEmpty_iff.mp first] at listed
  cases listed

/-- The parents of a step are steps themselves. -/
theorem exists_parent (valid : w.validate = .ok ()) (own : step ∈ w.steps) (listed : p ∈ step.parents) :
    ∃ parent ∈ w.steps, parent.readableId = p :=
  List.mem_map.mp ((stepDefect?_none ((validate_steps valid).2 step own)).1 p listed)

end WorkflowEngine.Workflow
