import WorkflowEngine.Identifier

/-!
Histories of what has happened, the latest first.
-/

namespace WorkflowEngine

variable {α : Type} {p q : α → Prop} {x : α} {past : List α}

/-- Something of the first kind has happened, and nothing of the second kind since. -/
def Since (p q : α → Prop) : List α → Prop
  | [] => False
  | x :: past => p x ∨ (¬ q x ∧ Since p q past)

@[simp] theorem since_nil : ¬ Since p q [] := id

@[simp] theorem since_cons : Since p q (x :: past) ↔ p x ∨ (¬ q x ∧ Since p q past) := Iff.rfl

end WorkflowEngine
