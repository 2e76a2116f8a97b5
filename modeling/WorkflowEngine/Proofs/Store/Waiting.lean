import WorkflowEngine.Proofs.Ascending
import WorkflowEngine.Proofs.Store.Agenda

/-!
What a step that waits has heard of its parents. Word of one of them is kept until there is newer word
of the same one; the step is ready when there is word of each.
-/

namespace WorkflowEngine.WaitingStep

open Store

variable {x : WaitingStep} {p : Part} {o : ParentOutcome}

/-- The step waits for the task to end. -/
def awaits (x : WaitingStep) (p : Part) : Bool :=
  x.tenantId == p.tenantId && p.dagId == some x.dagId && x.parents.contains p.step

/-- The step after word has come of the outcome of a task. -/
def hear (x : WaitingStep) (p : Part) (o : ParentOutcome) : WaitingStep :=
  if x.awaits p then x.record o else x

/-- The step as it waits in a new run. -/
def ofStep (r : DagRecord) (step : Step) : WaitingStep where
  tenantId := r.dag.tenantId
  dagId := r.dag.id
  step := step.readableId
  parents := step.parents

@[simp] theorem hear_tenantId : (x.hear p o).tenantId = x.tenantId := by
  unfold hear
  split <;> rfl

@[simp] theorem hear_dagId : (x.hear p o).dagId = x.dagId := by
  unfold hear
  split <;> rfl

@[simp] theorem hear_step : (x.hear p o).step = x.step := by
  unfold hear
  split <;> rfl

@[simp] theorem hear_parents : (x.hear p o).parents = x.parents := by
  unfold hear
  split <;> rfl

theorem awaits_iff : x.awaits p = true ↔
    x.tenantId = p.tenantId ∧ p.dagId = some x.dagId ∧ p.step ∈ x.parents := by
  simp [awaits, and_assoc]

theorem hear_deaf (deaf : ¬ x.awaits p = true) : x.hear p o = x := by
  unfold hear
  rw [if_neg deaf]

theorem mem_hear {o' : ParentOutcome} (h : o' ∈ (x.hear p o).outcomes) :
    o' ∈ x.outcomes ∨ (o' = o ∧ x.awaits p = true) := by
  unfold hear at h
  split at h
  · rename_i awaits
    rcases Ascending.mem_of_mem_put h with new | old
    · exact Or.inr ⟨new, awaits⟩
    · exact Or.inl old
  · exact Or.inl h

theorem hear_heard (awaits : x.awaits p = true) : o ∈ (x.hear p o).outcomes := by
  unfold hear
  rw [if_pos awaits]
  exact Ascending.mem_put_self

/-- Word of one parent makes no other parent forgotten. -/
theorem hear_keeps {q : String} (known : ∃ o' ∈ x.outcomes, o'.parent = q) :
    ∃ o' ∈ (x.hear p o).outcomes, o'.parent = q := by
  obtain ⟨o', listed, rfl⟩ := known
  unfold hear
  split
  · by_cases same : o.parent = o'.parent
    · exact ⟨o, Ascending.mem_put_self, same⟩
    · refine ⟨o', Ascending.mem_put_of_mem listed ?_, rfl⟩
      simp only [decide_eq_true_eq]
      by_contra neither
      rw [not_or, String.not_lt, String.not_lt] at neither
      exact same (String.le_antisymm neither.2 neither.1)
  · exact ⟨o', listed, rfl⟩

/-! ### Words told again -/

/-- A word that reaches steps: the part of the task that it is of, and its outcome. -/
abbrev Word := Part × ParentOutcome

/-- The step after words have come, in order. -/
def hearAll (x : WaitingStep) (words : List Word) : WaitingStep :=
  words.foldl (fun x word => x.hear word.1 word.2) x

/-- The outcomes are in the order of the parents, one for each. -/
def Ordered (x : WaitingStep) : Prop :=
  x.outcomes.Pairwise fun a b => decide (a.parent < b.parent) = true

theorem put_ordered (o : ParentOutcome) (os : List ParentOutcome)
    (sorted : os.Pairwise fun a b => decide (a.parent < b.parent) = true) :
    (Ascending.put (fun a b => decide (a.parent < b.parent)) o os).Pairwise
      fun a b => decide (a.parent < b.parent) = true := by
  refine Ascending.put_pairwise ?_ ?_ sorted
  · simp only [decide_eq_true_eq]
    exact fun _ _ => String.lt_trans
  · simp only [decide_eq_true_eq, decide_eq_false_iff_not, String.not_lt]
    exact fun b c le ge less => String.le_antisymm ge le ▸ less

theorem Ordered.hear (ordered : x.Ordered) : (x.hear p o).Ordered := by
  unfold WaitingStep.hear
  split
  · exact put_ordered o x.outcomes ordered
  · exact ordered

theorem parent_apart (a b : ParentOutcome) :
    (decide (a.parent < b.parent) = true ∨ decide (b.parent < a.parent) = true) ↔
      a.parent ≠ b.parent := by
  simp only [decide_eq_true_eq]
  constructor
  · rintro (less | less) same <;> exact String.lt_irrefl _ (same ▸ less)
  · intro other
    by_contra neither
    rw [not_or, String.not_lt, String.not_lt] at neither
    exact other (String.le_antisymm neither.2 neither.1)

@[simp] theorem hear_awaits {q : Part} : (x.hear p o).awaits q = x.awaits q := by
  simp [awaits]

/-- What a step has heard in the end are the words about tasks that it waits for. -/
theorem hearAll_eq (x : WaitingStep) (words : List Word) :
    x.hearAll words = { x with
      outcomes := ((words.filter fun word => x.awaits word.1).map (·.2)).foldl
        (fun os o => Ascending.put (fun a b => decide (a.parent < b.parent)) o os) x.outcomes } := by
  induction words generalizing x with
  | nil => rfl
  | cons word rest ih =>
    change (x.hear word.1 word.2).hearAll rest = _
    rw [ih]
    simp only [hear_awaits]
    by_cases awaits : x.awaits word.1 = true
    · simp only [WaitingStep.hear, List.filter_cons, awaits, if_true, List.map_cons, List.foldl_cons,
        record]
    · simp only [hear_deaf awaits, List.filter_cons, awaits]
      rfl

/-- Words that come again, all of them in the same order, change nothing. -/
theorem hearAll_again (ordered : x.Ordered) (words : List Word) :
    (x.hearAll words).hearAll words = x.hearAll words := by
  have same : ∀ word : Word, (x.hearAll words).awaits word.1 = x.awaits word.1 := by
    intro word
    rw [hearAll_eq]
    rfl
  rw [hearAll_eq (x.hearAll words)]
  simp only [same]
  rw [hearAll_eq x]
  refine congrArg (fun os => { x with outcomes := os }) ?_
  exact Ascending.foldl_put_again parent_apart
    (fun a b less => by simpa using String.lt_asymm (of_decide_eq_true less))
    put_ordered _ ordered

theorem isReady_iff : x.isReady = true ↔ ∀ q ∈ x.parents, ∃ o ∈ x.outcomes, o.parent = q := by
  simp [isReady]

end WorkflowEngine.WaitingStep
