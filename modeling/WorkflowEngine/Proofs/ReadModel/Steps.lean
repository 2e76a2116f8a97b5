import WorkflowEngine.Proofs.ReadModel.Status

/-!
The steps of a run: the operations that went well, each with the read model before and after it. What is
to be known of a run beyond the state it leads to is read off its steps.
-/

namespace WorkflowEngine.ReadModel

variable {g : Guarded ReadModel} {m m' : ReadModel} {op : Operation} {ops later : List Operation}
  {partitions days : Nat}

/-- An operation that went well, with the events that it took. -/
structure Step where
  before : ReadModel
  op : Operation
  taken : List Pending
  result : ReadModel

def step? (g : Guarded ReadModel) (op : Operation) : Option Step :=
  match g with
  | .poisoned => none
  | .sound m =>
    match m.perform op with
    | .ok (taken, result) => some { before := m, op, taken, result }
    | .error _ => none

/-- The operations that go well from some state on, in their order. -/
def steps : Guarded ReadModel → List Operation → List Step
  | _, [] => []
  | g, op :: rest => (step? g op).toList ++ steps (g.write (·.perform op)).2 rest

/-- The state that some operations lead to. -/
def advance (g : Guarded ReadModel) (ops : List Operation) : Guarded ReadModel :=
  ops.foldl (fun g op => (g.write (·.perform op)).2) g

theorem advance_append : advance g (ops ++ later) = advance (advance g ops) later :=
  List.foldl_append

theorem after_append : after partitions days (ops ++ later) = advance (after partitions days ops) later :=
  List.foldl_append

theorem steps_append : steps g (ops ++ later) = steps g ops ++ steps (advance g ops) later := by
  induction ops generalizing g with
  | nil => rfl
  | cons op rest ih =>
    rw [List.cons_append, steps, ih, ← List.append_assoc]
    rfl

/-- An operation that leaves the read model readable was carried out or has changed nothing. -/
theorem step?_cases (readable : (g.write (·.perform op)).2 = .sound m') : ∃ m, g = .sound m ∧
    ((m' = m ∧ step? g op = none) ∨
      ∃ taken, m.perform op = .ok (taken, m') ∧ step? g op = some ⟨m, op, taken, m'⟩) := by
  cases g with
  | poisoned => cases readable
  | sound m =>
    refine ⟨m, rfl, ?_⟩
    unfold Guarded.write at readable
    simp only [step?] at readable ⊢
    cases done : m.perform op with
    | ok result =>
      obtain ⟨taken, m₁⟩ := result
      rw [done] at readable
      cases readable
      exact Or.inr ⟨taken, rfl, rfl⟩
    | error fault =>
      rw [done] at readable
      refine Or.inl ⟨?_, rfl⟩
      cases fault <;> cases readable <;> rfl

theorem steps_concat (readable : advance g (ops ++ [op]) = .sound m') :
    ∃ m, advance g ops = .sound m ∧ ((m' = m ∧ steps g (ops ++ [op]) = steps g ops) ∨
      ∃ taken, m.perform op = .ok (taken, m') ∧
        steps g (ops ++ [op]) = steps g ops ++ [⟨m, op, taken, m'⟩]) := by
  rw [advance_append] at readable
  obtain ⟨m, before, changed⟩ := step?_cases (g := advance g ops) readable
  have last : steps g (ops ++ [op]) = steps g ops ++ (step? (advance g ops) op).toList := by
    rw [steps_append]
    exact congrArg (steps g ops ++ ·) (List.append_nil _)
  rw [last]
  rcases changed with ⟨same, nothing⟩ | ⟨taken, done, carried⟩
  · rw [nothing]
    exact ⟨m, before, Or.inl ⟨same, List.append_nil _⟩⟩
  · rw [carried]
    exact ⟨m, before, Or.inr ⟨taken, done, rfl⟩⟩

end WorkflowEngine.ReadModel
