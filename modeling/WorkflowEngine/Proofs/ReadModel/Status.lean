import Mathlib.Data.List.Induction
import Mathlib.Data.List.Infix
import WorkflowEngine.Guarded
import WorkflowEngine.Proofs.ReadModel.Operation

/-!
What a row shows of its task in any run of operations. It shows an event of the log or nothing yet, it
never falls behind, and of the events that were folded for it no one of the latest attempt has a higher
status. The latter is carried by a bound on the attempt that is shown: it is zero or that of a folded
event, so an event of the latest attempt is never refused for its attempt.
-/

namespace WorkflowEngine.ReadModel

open Fallible

variable {m m' : ReadModel} {row row' : TaskRow} {i : TaskId} {taken folded : List Pending}

/-! ### One row -/

theorem Turns.le (turns : Turns row row' taken) :
    row.latestRetryCount ≤ row'.latestRetryCount ∧ row.status.rank ≤ row'.status.rank := by
  have same : row'.mark = row.mark →
      row.latestRetryCount ≤ row'.latestRetryCount ∧ row.status.rank ≤ row'.status.rank := by
    intro mark
    exact ⟨Int.le_of_eq (congrArg Mark.retryCount mark).symm,
      Nat.le_of_eq (congrArg (·.status.rank) mark).symm⟩
  rcases turns with ⟨_, mark⟩ | ⟨top, _, _, mark⟩
  · exact same mark
  · split at mark
    · rename_i replaces
      obtain ⟨attempt, rank⟩ := Mark.replaces_iff.mp replaces
      have attempt' : row'.latestRetryCount = top.retryCount := congrArg Mark.retryCount mark
      have rank' : row'.status.rank = top.status.rank := congrArg (·.status.rank) mark
      exact ⟨attempt' ▸ attempt, rank' ▸ Nat.le_of_lt rank⟩
    · exact same mark

/-- What a row shows, with the events that were folded for it. -/
structure Shows (m : ReadModel) (i : TaskId) (row : TaskRow) (folded : List Pending) : Prop where
  shown : row.mark = unmarked ∨ ∃ e ∈ m.events, e.taskId = i ∧ e.mark = row.mark
  attempts : ∀ p ∈ folded, 0 ≤ p.retryCount
  latest : row.latestRetryCount = 0 ∨ ∃ p ∈ folded, p.retryCount = row.latestRetryCount
  highest : ∀ p ∈ folded, (∀ q ∈ folded, q.retryCount ≤ p.retryCount) →
    p.status.rank ≤ row.status.rank

theorem Shows.fresh (fresh : row.mark = unmarked) : m.Shows i row [] :=
  ⟨Or.inl fresh, by simp, Or.inl (congrArg Mark.retryCount fresh), by simp⟩

/-- No event of the latest attempt is refused because of its attempt. -/
theorem Shows.turn (shows : m.Shows i row folded) (turns : Turns row row' taken)
    (grown : m.events ⊆ m'.events) (attempts : ∀ p ∈ taken, 0 ≤ p.retryCount)
    (logged : ∀ p ∈ taken, ∃ e ∈ m'.events, e.taskId = i ∧ e.mark = p.mark) :
    m'.Shows i row' (folded ++ taken) := by
  have before : row.mark = unmarked ∨ ∃ e ∈ m'.events, e.taskId = i ∧ e.mark = row.mark :=
    shows.shown.imp_right fun ⟨e, he, told⟩ => ⟨e, grown he, told⟩
  have counted : ∀ p ∈ folded ++ taken, 0 ≤ p.retryCount := fun p hp =>
    (List.mem_append.mp hp).elim (shows.attempts p) (attempts p)
  have latest : row.latestRetryCount = 0 ∨
      ∃ p ∈ folded ++ taken, p.retryCount = row.latestRetryCount :=
    shows.latest.imp_right fun ⟨p, hp, same⟩ => ⟨p, List.mem_append_left _ hp, same⟩
  have old : ∀ p ∈ folded, (∀ q ∈ folded ++ taken, q.retryCount ≤ p.retryCount) →
      p.status.rank ≤ row'.status.rank := fun p hp leads =>
    Nat.le_trans (shows.highest p hp fun q hq => leads q (List.mem_append_left _ hq)) turns.le.2
  have same : row'.mark = row.mark → row'.latestRetryCount = row.latestRetryCount :=
    congrArg Mark.retryCount
  rcases turns with ⟨rfl, mark⟩ | ⟨top, htop, high, mark⟩
  · refine ⟨mark ▸ before, counted, same mark ▸ latest, fun p hp => old p ?_⟩
    simpa using hp
  · have listed : top ∈ folded ++ taken := List.mem_append_right _ htop
    refine ⟨?_, counted, ?_, fun p hp leads => ?_⟩
    · split at mark
      · obtain ⟨e, he, told⟩ := logged top htop
        exact Or.inr ⟨e, he, mark ▸ told⟩
      · exact mark ▸ before
    · split at mark
      · exact Or.inr ⟨top, listed, (congrArg Mark.retryCount mark).symm⟩
      · exact same mark ▸ latest
    · rcases List.mem_append.mp hp with earlier | now
      · exact old p earlier leads
      · -- An event of the latest attempt was taken, so the winner is of that attempt, too.
        have winner : p.status.rank ≤ top.status.rank := by
          rcases Mark.le_iff.mp (high p now) with less | ⟨_, rank⟩
          · exact absurd (leads top listed) (Int.not_le.mpr less)
          · exact rank
        have attempt : row.latestRetryCount ≤ top.retryCount := by
          have reached : p.retryCount ≤ top.retryCount := by
            rcases Mark.le_iff.mp (high p now) with less | ⟨attempt, _⟩
            · exact Int.le_of_lt less
            · exact Int.le_of_eq attempt
          refine Int.le_trans ?_ reached
          rcases latest with zero | ⟨q, hq, attempt⟩
          · exact zero ▸ counted p hp
          · exact attempt ▸ leads q hq
        refine Nat.le_trans winner ?_
        split at mark
        · exact Nat.le_of_eq (congrArg (·.status.rank) mark).symm
        · rename_i refused
          rw [Mark.replaces_iff] at refused
          have rank : row'.status.rank = row.status.rank := congrArg (·.status.rank) mark
          exact rank ▸ Nat.le_of_not_lt fun lower => refused ⟨attempt, lower⟩

/-! ### Runs -/

variable {partitions days : Nat} {op : Operation} {ops : List Operation} {log : List TaskEvent}

/-- The row of a task, as long as the read model can be read. -/
def row? (g : Guarded ReadModel) (i : TaskId) : Option TaskRow := g.get.toOption.bind (·.task? i)

/-- The read model, empty at first, after some operations. -/
def after (partitions days : Nat) (ops : List Operation) : Guarded ReadModel :=
  ops.foldl (fun g op => (g.write (·.perform op)).2) (.sound (.ofLimits partitions days))

/-- The read model after one more operation, with the events that were folded for the row of a task
since there is one. -/
def observe (i : TaskId) (seen : Guarded ReadModel × List Pending) (op : Operation) :
    Guarded ReadModel × List Pending :=
  match seen.1.write (·.perform op) with
  | (.ok taken, g) =>
    (g, if (row? g i).isSome then seen.2 ++ taken.filter (·.taskId == i) else [])
  | (.error _, g) => (g, seen.2)

/-- The events that were folded for the row of a task since there is one. -/
def foldedFor (i : TaskId) (partitions days : Nat) (ops : List Operation) : List Pending :=
  (ops.foldl (observe i) (.sound (.ofLimits partitions days), [])).2

theorem observe_model (seen : Guarded ReadModel × List Pending) :
    (observe i seen op).1 = (seen.1.write (·.perform op)).2 := by
  unfold observe
  split <;> rename_i written <;> rw [written]

theorem observed_model : (ops.foldl (observe i) (.sound (.ofLimits partitions days), [])).1 =
    after partitions days ops :=
  (List.foldl_hom Prod.fst fun seen _ => (observe_model seen).symm).symm

theorem foldedFor_concat : foldedFor i partitions days (ops ++ [op]) =
    (observe i (after partitions days ops, foldedFor i partitions days ops) op).2 := by
  rw [foldedFor, List.foldl_append, ← observed_model]
  rfl

/-- As long as the read model can be read, an operation was carried out or has changed nothing. -/
theorem after_concat (readable : after partitions days (ops ++ [op]) = .sound m') :
    ∃ m, after partitions days ops = .sound m ∧
      ((m' = m ∧ ∀ i, foldedFor i partitions days (ops ++ [op]) = foldedFor i partitions days ops) ∨
        ∃ taken, m.perform op = .ok (taken, m') ∧ ∀ i, foldedFor i partitions days (ops ++ [op]) =
          if (m'.task? i).isSome then
            foldedFor i partitions days ops ++ taken.filter (·.taskId == i)
          else []) := by
  simp only [foldedFor_concat, observe]
  rw [after, List.foldl_append] at readable
  change ((after partitions days ops).write _).2 = _ at readable
  generalize after partitions days ops = g at readable ⊢
  cases g with
  | poisoned => cases readable
  | sound m =>
    refine ⟨m, rfl, ?_⟩
    unfold Guarded.write at readable ⊢
    simp only at readable ⊢
    cases done : m.perform op with
    | ok result =>
      obtain ⟨taken, m₁⟩ := result
      rw [done] at readable
      cases readable
      exact Or.inr ⟨taken, rfl, fun i => rfl⟩
    | error fault =>
      rw [done] at readable
      refine Or.inl ⟨?_, fun i => rfl⟩
      cases fault <;> cases readable <;> rfl

/-- The events tell of tasks as they have their rows during a run, and of attempts counted from zero. -/
structure Truthful (partitions days : Nat) (ops : List Operation) (log : List TaskEvent) : Prop where
  attempts : ∀ e ∈ log, 0 ≤ e.retryCount
  own : ∀ e ∈ log, ∀ earlier, earlier <+: ops → ∀ row,
    row? (after partitions days earlier) e.taskId = some row →
      e.tenantId = row.tenantId ∧ e.taskInsertedAt = row.insertedAt

theorem Truthful.mono {earlier : List Operation} {less : List TaskEvent}
    (truthful : Truthful partitions days ops log) (before : earlier <+: ops) (fewer : less ⊆ log) :
    Truthful partitions days earlier less :=
  ⟨fun e he => truthful.attempts e (fewer he),
    fun e he first leads => truthful.own e (fewer he) first (leads.trans before)⟩

/-- What waits for a task with a row was told of that row. -/
theorem Truthful.dated (truthful : Truthful partitions days ops m.events)
    (readable : after partitions days ops = .sound m) (recorded : m.Recorded)
    (found : m.task? i = some row) : ∀ p ∈ m.waiting i, p.taskInsertedAt = row.insertedAt := by
  intro p hp
  obtain ⟨⟨share, waits⟩, mine⟩ := mem_waiting.mp hp
  obtain ⟨e, he, same⟩ := recorded.waiting _ waits
  have task : e.taskId = i := same.task.symm.trans mine
  have here : row? (after partitions days ops) e.taskId = some row := by
    rw [readable, task]
    exact found
  exact same.insertedAt.trans (truthful.own e he ops List.prefix_rfl row here).2

/-- Without a row nothing has been folded. -/
theorem foldedFor_rowless (readable : after partitions days ops = .sound m)
    (missing : m.task? i = none) : foldedFor i partitions days ops = [] := by
  induction ops using List.reverseRecOn generalizing m with
  | nil => rfl
  | append_singleton ops op ih =>
    obtain ⟨m₁, before, ⟨rfl, unchanged⟩ | ⟨taken, _, folded⟩⟩ := after_concat readable
    · rw [unchanged]
      exact ih before missing
    · rw [folded, missing]
      rfl

theorem after_shows (readable : after partitions days ops = .sound m)
    (truthful : Truthful partitions days ops m.events) :
    m.Recorded ∧ ∀ i row, m.task? i = some row → m.Shows i row (foldedFor i partitions days ops) := by
  induction ops using List.reverseRecOn generalizing m with
  | nil =>
    cases readable
    exact ⟨⟨.nil, by simp [ofLimits]⟩, fun i row found => by cases found⟩
  | append_singleton ops op ih =>
    have shorter := List.prefix_append ops [op]
    obtain ⟨m₁, before, ⟨rfl, unchanged⟩ | ⟨taken, done, folded⟩⟩ := after_concat readable
    · simp only [unchanged]
      exact ih before (truthful.mono shorter (List.Subset.refl _))
    · have written := perform_written done
      have grown := written.log
      have earlier := truthful.mono shorter grown
      obtain ⟨recorded, shows⟩ := ih before earlier
      refine ⟨written.recorded recorded, fun i row' found => ?_⟩
      rw [folded i, found, Option.isSome_some, if_pos rfl]
      have dated := fun row (known : m₁.task? i = some row) => earlier.dated before recorded known
      rcases written.turns recorded dated found with ⟨missing, fresh, rfl⟩ | ⟨row, known, _, turns⟩
      · rw [foldedFor_rowless before missing]
        exact .fresh fresh
      · have told : ∀ p ∈ taken.filter (·.taskId == i),
            ∃ e ∈ m₁.events, e.taskId = i ∧ e.mark = p.mark := by
          intro p hp
          obtain ⟨listed, mine⟩ := List.mem_filter.mp hp
          obtain ⟨e, he, same⟩ := written.taken_logged recorded p listed
          exact ⟨e, he, same.task.symm.trans (eq_of_beq mine), same.mark.symm⟩
        refine (shows i row known).turn turns grown (fun p hp => ?_) fun p hp => ?_
        · obtain ⟨e, he, _, mark⟩ := told p hp
          have attempt : e.retryCount = p.retryCount := congrArg Mark.retryCount mark
          exact attempt ▸ earlier.attempts e he
        · obtain ⟨e, he, told⟩ := told p hp
          exact ⟨e, grown he, told⟩

/-- While a task has its row, the row never falls behind. -/
theorem after_rises {later : List Operation}
    (readable : after partitions days (ops ++ later) = .sound m)
    (truthful : Truthful partitions days (ops ++ later) m.events)
    (start : row? (after partitions days ops) i = some row)
    (lasts : ∀ mid, mid <+: later → (row? (after partitions days (ops ++ mid)) i).isSome)
    (found : m.task? i = some row') :
    row.latestRetryCount ≤ row'.latestRetryCount ∧ row.status.rank ≤ row'.status.rank := by
  induction later using List.reverseRecOn generalizing m row' with
  | nil =>
    rw [List.append_nil] at readable
    rw [readable] at start
    cases (show m.task? i = some row from start).symm.trans found
    exact ⟨Int.le_refl _, Nat.le_refl _⟩
  | append_singleton later op ih =>
    have shorter := List.prefix_append later [op]
    rw [← List.append_assoc] at readable truthful
    obtain ⟨m₁, before, changed⟩ := after_concat readable
    have there := lasts later shorter
    rw [before] at there
    obtain ⟨row₁, known⟩ := Option.isSome_iff_exists.mp there
    have known : m₁.task? i = some row₁ := known
    have rest := fun mid (leads : mid <+: later) => lasts mid (leads.trans shorter)
    rcases changed with ⟨rfl, _⟩ | ⟨taken, done, _⟩
    · exact ih before (truthful.mono (List.prefix_append _ _) (List.Subset.refl _)) rest found
    · have written := perform_written done
      have earlier := truthful.mono (List.prefix_append _ _) written.log
      obtain ⟨attempt, rank⟩ := ih before earlier rest known
      obtain ⟨recorded, _⟩ := after_shows before earlier
      have dated := fun row (known : m₁.task? i = some row) => earlier.dated before recorded known
      rcases written.turns recorded dated found with ⟨missing, _⟩ | ⟨row₂, known', _, turns⟩
      · rw [missing] at known
        cases known
      · cases known.symm.trans known'
        exact ⟨Int.le_trans attempt turns.le.1, Nat.le_trans rank turns.le.2⟩

/-- What a row shows is sound. It is an event of the log of its task, or that there was none yet; it is
no less than what it was while the row was there; and of the events that were folded for the row no one
of the latest attempt tells of a higher status. -/
theorem row_sound (readable : after partitions days ops = .sound m)
    (truthful : Truthful partitions days ops m.events) (found : m.task? i = some row) :
    (row.mark = ⟨0, .queued⟩ ∨ ∃ e ∈ m.events, e.tenantId = row.tenantId ∧ e.taskId = row.id ∧
      e.taskInsertedAt = row.insertedAt ∧ e.mark = row.mark) ∧
    (∀ p ∈ foldedFor i partitions days ops,
      (∀ q ∈ foldedFor i partitions days ops, q.retryCount ≤ p.retryCount) →
        p.status.rank ≤ row.status.rank) ∧
    ∀ earlier later row₀, ops = earlier ++ later →
      row? (after partitions days earlier) i = some row₀ →
      (∀ mid, mid <+: later → (row? (after partitions days (earlier ++ mid)) i).isSome) →
        row₀.latestRetryCount ≤ row.latestRetryCount ∧ row₀.status.rank ≤ row.status.rank := by
  have shows := (after_shows readable truthful).2 i row found
  refine ⟨shows.shown.imp_right ?_, shows.highest, ?_⟩
  · rintro ⟨e, he, mine, mark⟩
    have here : row? (after partitions days ops) e.taskId = some row := by
      rw [readable, mine]
      exact found
    obtain ⟨tenant, dated⟩ := truthful.own e he ops List.prefix_rfl row here
    exact ⟨e, he, tenant, mine.trans (task?_id found).symm, dated, mark⟩
  · rintro earlier later row₀ rfl start lasts
    exact after_rises readable truthful start lasts found

/-- A task fails, is told of and starts over. -/
def failedOnce : List Operation := [
  .attachPartition .tasks Instant.epoch.date,
  .attachPartition .runs Instant.epoch.date,
  .insertEvents .epoch default
    [{ (default : TaskEvent) with taskId := 1, eventType := .started, status := .running }],
  .createTasks default [{ (default : Task) with id := 1 }],
  .insertEvents .epoch default
    [{ (default : TaskEvent) with taskId := 1, eventType := .failed, status := .failed }],
  .foldTasks default 1 10 .epoch,
  .insertEvents .epoch default
    [{ (default : TaskEvent) with
      taskId := 1, retryCount := 1, eventType := .retrying, status := .queued }],
  .foldTasks default 1 10 .epoch]

theorem failedOnce_truthful (readable : after 4 7 failedOnce = .sound m) :
    Truthful 4 7 failedOnce m.events := by
  have told : ∀ e ∈ m.events, e.taskId = 1 ∧ e.tenantId = default ∧ e.taskInsertedAt = .epoch ∧
      0 ≤ e.retryCount := by
    cases readable
    decide
  have rows : ∀ earlier ∈ failedOnce.inits, ∀ row ∈ row? (after 4 7 earlier) 1,
      row.tenantId = default ∧ row.insertedAt = .epoch := by
    decide +kernel
  refine ⟨fun e he => (told e he).2.2.2, fun e he earlier leads row there => ?_⟩
  obtain ⟨task, tenant, insertedAt, _⟩ := told e he
  rw [task] at there
  obtain ⟨owner, created⟩ := rows earlier ((List.mem_inits _ _).mpr leads) row there
  exact ⟨tenant.trans owner.symm, insertedAt.trans created.symm⟩

/-- The row still tells of the failure, which has the higher status. -/
theorem failedOnce_sound : ∃ m row, after 4 7 failedOnce = .sound m ∧ m.task? 1 = some row ∧
    row.mark = ⟨0, .failed⟩ ∧
    (foldedFor 1 4 7 failedOnce).map (·.mark) = [⟨0, .running⟩, ⟨0, .failed⟩, ⟨1, .queued⟩] ∧
    ∀ p ∈ foldedFor 1 4 7 failedOnce,
      (∀ q ∈ foldedFor 1 4 7 failedOnce, q.retryCount ≤ p.retryCount) →
        p.status.rank ≤ row.status.rank := by
  obtain ⟨m, row, readable, found, mark⟩ : ∃ m row, after 4 7 failedOnce = .sound m ∧
      m.task? 1 = some row ∧ row.mark = ⟨0, .failed⟩ := ⟨_, _, rfl, rfl, rfl⟩
  obtain ⟨_, highest, _⟩ := row_sound readable (failedOnce_truthful readable) found
  exact ⟨m, row, readable, found, mark, rfl, highest⟩

end WorkflowEngine.ReadModel
