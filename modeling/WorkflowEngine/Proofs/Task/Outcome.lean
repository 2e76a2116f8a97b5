import WorkflowEngine.Proofs.Identifier
import WorkflowEngine.Task.Outcome

/-!
What the key of an announcement says. A key is read as the outcome and the identifier that it was made
of: no lead of a key begins another one.
-/

namespace WorkflowEngine

/-- The outcome of a task in this state, once there is one. -/
def TaskState.outcome? : TaskState → Option Outcome
  | .queued | .running => none
  | .completed | .skipped => some .completed
  | .failed => some .failed
  | .cancelled => some .cancelled

theorem TaskState.outcome?_live {state : TaskState} (live : state.isTerminal = false) :
    state.outcome? = none := by
  cases state <;> first | rfl | cases live

theorem TaskState.outcome?_terminal {state : TaskState} {o : Outcome}
    (outcome : state.outcome? = some o) : state.isTerminal = true := by
  cases state <;> first | rfl | cases outcome

theorem TaskState.outcome?_ne_completed {state : TaskState} {o : Outcome}
    (outcome : state.outcome? = some o) :
    o ≠ .completed ↔ state = .failed ∨ state = .cancelled := by
  cases state <;> cases outcome <;> decide

theorem Text.afterLead?_append (lead rest : String) : afterLead? lead (lead ++ rest) = some rest := by
  unfold afterLead?
  rw [String.toList_append, if_pos (List.prefix_append _ _), ← String.length_toList, List.drop_left,
    String.ofList_toList]

namespace Outcome

theorem lead_apart {o p : Outcome} (other : o ≠ p) (rest : List Char) :
    ¬ p.lead.toList <+: o.lead.toList ++ rest := by
  cases o <;> cases p <;> first | exact absurd rfl other | simp [lead]

theorem afterLead?_other {o p : Outcome} (other : o ≠ p) (rest : String) :
    Text.afterLead? p.lead (o.lead ++ rest) = none := by
  unfold Text.afterLead?
  rw [String.toList_append]
  exact if_neg (lead_apart other _)

/-- A key is read back as what it was made of. -/
theorem ofKey?_key (o : Outcome) (id : ExternalId) : ofKey? (o.key id) = some (o, id.asRead) := by
  have read : ∀ p : Outcome, (do
      let rest ← Text.afterLead? p.lead (o.key id)
      return (p, ← Identifier.parse? rest)) = if p = o then some (o, id.asRead) else none := by
    intro p
    by_cases same : p = o
    · rw [same, if_pos rfl, key, Text.afterLead?_append, Option.bind_eq_bind, Option.bind_some,
        Identifier.parse?_text]
      rfl
    · rw [if_neg same, key, afterLead?_other (Ne.symm same)]
      rfl
  unfold ofKey?
  simp only [read]
  cases o <;> rfl

end Outcome

end WorkflowEngine
