import WorkflowEngine.Proofs.ReadModel.Ownership
import WorkflowEngine.Proofs.ReadModel.Steps
import WorkflowEngine.Proofs.ReadModel.Tables
import WorkflowEngine.Proofs.ReadModel.Winner

/-!
Which events are applied to a row. A candidate is applied if it may replace what the row shows, and then
the event that won stands for it. The last event applied to a row tells what the row shows, and when the
task has ended: the moments of ending are kept beside the rows, and are set, taken back and dropped along
with them.
-/

namespace WorkflowEngine

/-- When the task has ended, as far as the event tells. -/
def Pending.ends? (p : Pending) : Option Instant := if p.status.isTerminal then some p.timestamp else none

/-- The events by which candidates replace a mark one after another. For each one that may, it is the first
event of the batch that the candidate shows. -/
def Folded.replacing (batch : List Pending) : Mark → List Folded → List Pending
  | _, [] => []
  | mark, f :: rest =>
    if f.mark.replaces mark then (batch.find? f.shows).toList ++ replacing batch f.mark rest
    else replacing batch mark rest

/-- The events of a batch that are applied to a row. -/
def TaskRow.applies (row : TaskRow) (batch : List Pending) : List Pending :=
  Folded.replacing batch row.mark ((foldPending batch).filter (·.taskId == row.id))

namespace ReadModel

open Fallible

variable {m m' : ReadModel} {row row' : TaskRow} {i : TaskId} {f : Folded} {fs : List Folded}
  {batch history taken : List Pending} {tenant : TenantId} {share limit n : Nat} {now : Instant}
  {op : Operation}

/-! ### Rows and the events that were applied to them -/

/-- The row shows the last event that was applied to it, and the task has ended when that one happened if
it has ended at all. -/
structure Reflects (m : ReadModel) (i : TaskId) (row : TaskRow) (history : List Pending) : Prop where
  found : m.task? i = some row
  mark : row.mark = history.getLast?.elim unmarked Pending.mark
  finished : m.finished? i = history.getLast?.bind Pending.ends?

/-- Only the row and the moment of ending matter. -/
theorem Reflects.congr (reflects : m.Reflects i row history) (found : m'.task? i = m.task? i)
    (finished : m'.finished? i = m.finished? i) : m'.Reflects i row history :=
  ⟨found.trans reflects.found, reflects.mark, finished.trans reflects.finished⟩

theorem target?_known (h : m.task? i = some row) (mine : f.taskId = i) :
    m.target? f = if f.mark.replaces row.mark then some row else none := by
  rw [target?, mine, h, Option.filter_some]
  rfl

theorem Reflects.refused (reflects : m.Reflects i row history)
    (refused : f.taskId = i → f.mark.replaces row.mark = false) :
    (m.applyFolded f).2.Reflects i row history := by
  cases accepted : m.target? f with
  | none =>
    have unchanged : m.applyFolded f = (none, m) := by simp only [applyFolded, accepted]
    rw [unchanged]
    exact reflects
  | some target =>
    obtain ⟨found, finished⟩ := applyFolded_target accepted i
    have other : i ≠ f.taskId := by
      rintro rfl
      rw [target?_known reflects.found rfl, refused rfl] at accepted
      cases accepted
    rw [if_neg other] at found finished
    exact reflects.congr found finished

theorem Reflects.accepted (reflects : m.Reflects i row history) (mine : f.taskId = i)
    (may : f.mark.replaces row.mark = true) (credits : f.Credits batch) :
    (m.applyFolded f).2.Reflects i (applyTo row f) (history ++ (batch.find? f.shows).toList) := by
  have accepted : m.target? f = some row := by rw [target?_known reflects.found mine, if_pos may]
  obtain ⟨found, finished⟩ := applyFolded_target accepted i
  rw [if_pos mine.symm] at found finished
  obtain ⟨p, first, moment, -⟩ := credits.first
  obtain ⟨-, mark⟩ := Folded.shows_iff.mp (List.find?_some first)
  have status : p.status = f.status := congrArg Mark.status mark
  rw [first, Option.toList_some]
  refine ⟨found, ?_, ?_⟩
  · rw [List.getLast?_concat]
    exact mark.symm
  · rw [List.getLast?_concat, finished, moment, ← status]
    rfl

theorem Reflects.applyAll (reflects : m.Reflects i row history)
    (credits : ∀ f ∈ fs, f.Credits batch) : ∃ row', (m.applyAll fs).2.Reflects i row'
      (history ++ Folded.replacing batch row.mark (fs.filter (·.taskId == i))) := by
  induction fs generalizing m row history with
  | nil => exact ⟨row, by rwa [List.filter_nil, Folded.replacing, List.append_nil]⟩
  | cons f rest ih =>
    obtain ⟨first, others⟩ := List.forall_mem_cons.mp credits
    by_cases mine : f.taskId = i
    · rw [List.filter_cons_of_pos (by simpa using mine), Folded.replacing]
      split
      · rename_i may
        rw [← List.append_assoc]
        exact ih (reflects.accepted mine may first) others
      · rename_i refused
        exact ih (reflects.refused fun _ => Bool.eq_false_iff.mpr refused) others
    · rw [List.filter_cons_of_neg (by simpa using mine)]
      exact ih (reflects.refused fun same => absurd same mine) others

/-! ### Operations -/

theorem Reflects.foldTasks (reflects : m.Reflects i row history)
    (done : m.foldTasks tenant share limit now = .ok (n, m')) :
    ∃ row', m'.Reflects i row' (history ++ row.applies (m.due tenant share limit now)) := by
  simp only [ReadModel.foldTasks] at done
  obtain ⟨m₂, back, done⟩ := bind_ok done
  obtain ⟨again, -, back⟩ := bind_ok back
  cases back
  cases done
  have start : Reflects { m with pendingEvents :=
      (takeDue (eventDue tenant share now) limit m.pendingEvents).2 } i row history :=
    ⟨reflects.found, reflects.mark, reflects.finished⟩
  obtain ⟨row', applied⟩ := start.applyAll (Folded.foldPending_credits (m.due tenant share limit now))
  rw [TaskRow.applies, task?_id reflects.found]
  refine ⟨row', applied.congr ?_ ?_⟩
  · rw [task?, queueDags_same.1]
    rfl
  · rw [finished?, queueDags_finished]
    rfl

/-- With a row that goes no moment of ending goes of a row that stays. -/
theorem maintain_finished (ordered : m.Ordered) (kept : (m.maintain now).2.task? i = some row) :
    (m.maintain now).2.finished? i = m.finished? i := by
  obtain ⟨member, stays⟩ := List.mem_filter.mp (List.mem_of_find?_eq_some kept)
  have stays : (m.plan now .tasks).drop.contains row.insertedAt.date = false :=
    Bool.not_eq_true' _ ▸ stays
  refine findKey?_filter (fun j => !(m.tasks.filter fun t =>
    (m.plan now .tasks).drop.contains t.insertedAt.date).any (·.id == j)) ?_
  simp only [Bool.not_eq_true', List.any_eq_false, beq_iff_eq]
  intro t gone same
  obtain ⟨listed, dropped⟩ := List.mem_filter.mp gone
  have here := task?_of_mem ordered listed
  rw [same, ← task?_id kept, task?_of_mem ordered member] at here
  cases here
  rw [dropped] at stays
  cases stays

/-- As long as a task has its row, what an operation applies to it is what the row shows of it. -/
theorem Reflects.perform (reflects : m.Reflects i row history) (ordered : m.Ordered)
    (done : m.perform op = .ok (taken, m')) (still : (m'.task? i).isSome) :
    ∃ row', m'.Reflects i row' (history ++ row.applies taken) := by
  have kept {m' : ReadModel} (found : m'.task? i = m.task? i) (finished : m'.finished? i = m.finished? i) :
      ∃ row', m'.Reflects i row' (history ++ row.applies []) :=
    ⟨row, by simpa [TaskRow.applies, foldPending, Folded.replacing] using reflects.congr found finished⟩
  cases performs done with
  | createTasks created =>
    rw [createTasks_rows created]
    obtain ⟨found, finished⟩ := addTasks_keep reflects.found _
    exact kept (found.trans reflects.found.symm) (congrArg (findKey? i) finished)
  | createDags created =>
    have finished : m'.finishedAt = m.finishedAt := by rw [createDags_rows created, addDags_finished]
    exact kept (congrArg (List.find? _) (createDags_same created).1) (congrArg (findKey? i) finished)
  | insertEvents => exact kept rfl rfl
  | foldTasks folded => exact reflects.foldTasks folded
  | foldDags folded =>
    exact kept (congrArg (List.find? _) (foldDags_same folded).1)
      (congrArg (findKey? i) (foldDags_finished folded))
  | maintain now =>
    obtain ⟨row', found⟩ := Option.isSome_iff_exists.mp still
    have same := task?_sublist ordered (maintain_same m now).1 found
    exact kept (found.trans same.symm) (maintain_finished ordered found)
  | attachPartition => exact kept rfl rfl

theorem addTasks_finished (ts : List Task) : (ts.foldl addTask m).finishedAt = m.finishedAt := by
  induction ts generalizing m with
  | nil => rfl
  | cons t rest ih =>
    refine ih.trans ?_
    unfold addTask
    split <;> rfl

/-- A row that is new shows nothing, and its task has not ended. -/
theorem perform_new (ordered : m.Ordered) (housed : m.Housed) (done : m.perform op = .ok (taken, m'))
    (missing : m.task? i = none) (found : m'.task? i = some row) : m'.Reflects i row [] := by
  have absent (same : m'.task? i = none) : m'.Reflects i row [] := by
    rw [same] at found
    cases found
  have unended : m.finished? i = none := by
    rw [finished?, findKey?, Option.map_eq_none_iff, List.find?_eq_none]
    intro e he same
    obtain ⟨row, member, id⟩ := housed.finishedAt e he
    have there := task?_of_mem ordered member
    rw [id, eq_of_beq same, missing] at there
    cases there
  cases performs done with
  | createTasks created =>
    rw [createTasks_rows created] at found ⊢
    rcases addTasks_rows found with before | ⟨-, fresh⟩
    · rw [missing] at before
      cases before
    · exact ⟨found, fresh, (congrArg (findKey? i) (addTasks_finished _)).trans unended⟩
  | createDags created =>
    exact absent ((congrArg (List.find? _) (createDags_same created).1).trans missing)
  | insertEvents => exact absent missing
  | foldTasks folded => exact absent ((foldTasks_same folded).2.1 i missing)
  | foldDags folded =>
    exact absent ((congrArg (List.find? _) (foldDags_same folded).1).trans missing)
  | maintain now =>
    have before := task?_sublist ordered (maintain_same m now).1 found
    rw [missing] at before
    cases before
  | attachPartition => exact absent missing

/-! ### Runs of operations -/

variable {partitions days : Nat} {ops : List Operation}

/-- The events that were applied to the row of a task since there is one, after one more step. -/
def Step.attribute (i : TaskId) (history : List Pending) (s : Step) : List Pending :=
  if (s.result.task? i).isSome then
    history ++ (s.before.task? i).elim [] (·.applies s.taken)
  else []

/-- The events that were applied to the row of a task since there is one. -/
def appliedTo (i : TaskId) (partitions days : Nat) (ops : List Operation) : List Pending :=
  (steps (.sound (.ofLimits partitions days)) ops).foldl (Step.attribute i) []

/-- At any time, rows and the moments of ending tell of the last event that was applied to each row. -/
theorem after_reflects (readable : after partitions days ops = .sound m) :
    (∀ row, m.task? i = some row → m.Reflects i row (appliedTo i partitions days ops)) ∧
      (m.task? i = none → appliedTo i partitions days ops = []) := by
  induction ops using List.reverseRecOn generalizing m with
  | nil =>
    cases readable
    exact ⟨fun row found => (nomatch found), fun _ => rfl⟩
  | append_singleton ops op ih =>
    obtain ⟨m₁, before, ⟨rfl, same⟩ | ⟨taken, done, more⟩⟩ :=
      steps_concat (g := .sound (.ofLimits partitions days)) readable
    · rw [appliedTo, same]
      exact ih before
    · obtain ⟨reflects, rowless⟩ := ih before
      have ordered := (after_ordered before).1
      have history : appliedTo i partitions days (ops ++ [op]) =
          Step.attribute i (appliedTo i partitions days ops) ⟨m₁, op, taken, m⟩ := by
        rw [appliedTo, more, List.foldl_append]
        rfl
      rw [history, Step.attribute]
      refine ⟨fun row' found => ?_, fun missing => by simp [missing]⟩
      rw [if_pos (by simp [found])]
      cases known : m₁.task? i with
      | none =>
        rw [rowless known]
        exact perform_new ordered (after_inLine before).housed done known found
      | some row =>
        obtain ⟨row₁, later⟩ := (reflects row known).perform ordered done (by simp [found])
        cases later.found.symm.trans found
        exact later

end ReadModel

end WorkflowEngine
