import WorkflowEngine.Proofs.ReadModel.Pass

/-!
The rows of the read model show what its log tells. What waits is in the log, a row shows the mark of
an event of its task or is still as it was created, and an event with the highest mark of its task
waits unless the row shows a status as high. The status of a row only ever rises.
-/

namespace WorkflowEngine.ReadModel

variable {m m' m'' : ReadModel} {row row' : TaskRow} {i : TaskId} {e : TaskEvent} {t : Task}

/-! ### Log and rows -/

/-- The mark of a row that no event was applied to. -/
def unmarked : Mark := ⟨0, .queued⟩

/-- An event that tells what this one tells waits to be folded. -/
def Waits (m : ReadModel) (e : TaskEvent) : Prop := ∃ p ∈ m.waiting e.taskId, p.mark = e.mark

/-- No event of its task in the log has a higher mark. -/
def Leads (m : ReadModel) (e : TaskEvent) : Prop :=
  ∀ e' ∈ m.events, e'.taskId = e.taskId → e'.mark ≤ e.mark

structure Coherent (m : ReadModel) : Prop where
  dated : ∀ e ∈ m.events, ∀ e' ∈ m.events, e'.taskId = e.taskId → e'.taskInsertedAt = e.taskInsertedAt
  waiting : ∀ q ∈ m.pendingEvents, ∃ e ∈ m.events, SameEvent (.ofEvent e .epoch) q.2
  shown : ∀ i row, m.task? i = some row →
    row.mark = unmarked ∨ ∃ e ∈ m.events, e.taskId = i ∧ e.mark = row.mark
  folded : ∀ e ∈ m.events, 0 ≤ e.retryCount → m.Leads e → ∀ row, m.task? e.taskId = some row →
    m.Waits e ∨ e.status.rank ≤ row.status.rank

/-- The log has grown, and no row is gone or shows a lower status. -/
structure Grows (m m' : ReadModel) : Prop where
  logged : ∀ e ∈ m.events, e ∈ m'.events
  rows : ∀ i row, m.task? i = some row →
    ∃ row', m'.task? i = some row' ∧ row.status.rank ≤ row'.status.rank

theorem Grows.refl (m : ReadModel) : m.Grows m :=
  ⟨fun _ => id, fun _ row h => ⟨row, h, Nat.le_refl _⟩⟩

theorem Grows.trans (first : m.Grows m') (second : m'.Grows m'') : m.Grows m'' := by
  refine ⟨fun e he => second.logged e (first.logged e he), ?_⟩
  intro i row h
  obtain ⟨row', h', rank⟩ := first.rows i row h
  obtain ⟨row'', h'', rank'⟩ := second.rows i row' h'
  exact ⟨row'', h'', Nat.le_trans rank rank'⟩

/-- All events that wait for a task are of one instant of creation. -/
theorem Coherent.waiting_dated (coherent : m.Coherent) (i : TaskId) :
    ∃ insertedAt, ∀ p ∈ m.waiting i, p.taskInsertedAt = insertedAt := by
  have recalls : ∀ p ∈ m.waiting i, ∃ e ∈ m.events, SameEvent (.ofEvent e .epoch) p ∧ e.taskId = i := by
    intro p hp
    obtain ⟨⟨share, listed⟩, mine⟩ := mem_waiting.mp hp
    obtain ⟨e, he, same⟩ := coherent.waiting _ listed
    exact ⟨e, he, same, same.task.symm.trans mine⟩
  cases waits : m.waiting i with
  | nil => exact ⟨.epoch, fun _ h => absurd h List.not_mem_nil⟩
  | cons p rest =>
    refine ⟨p.taskInsertedAt, fun q hq => ?_⟩
    obtain ⟨e, he, same, mine⟩ := recalls p (waits ▸ List.mem_cons_self)
    obtain ⟨e', he', same', mine'⟩ := recalls q (waits ▸ hq)
    rw [same'.insertedAt, same.insertedAt]
    exact coherent.dated e he e' he' (mine'.trans mine.symm)

theorem Coherent.waiting_logged (coherent : m.Coherent) {p : Pending} (h : p ∈ m.waiting i) :
    ∃ e ∈ m.events, e.taskId = i ∧ e.mark = p.mark := by
  obtain ⟨⟨share, listed⟩, mine⟩ := mem_waiting.mp h
  obtain ⟨e, he, same⟩ := coherent.waiting _ listed
  exact ⟨e, he, same.task.symm.trans mine, same.mark.symm⟩

theorem Coherent.empty (rows : m.tasks = []) (log : m.events = []) (pending : m.pendingEvents = []) :
    m.Coherent := by
  refine ⟨?_, ?_, ?_, ?_⟩
  · exact fun e he => absurd (log ▸ he) List.not_mem_nil
  · exact fun q hq => absurd (pending ▸ hq) List.not_mem_nil
  · intro i row h
    rw [task?, rows] at h
    cases h
  · exact fun e he => absurd (log ▸ he) List.not_mem_nil

/-- What is kept of runs and days does not matter. -/
theorem Coherent.same (coherent : m.Coherent) (rows : m'.tasks = m.tasks) (log : m'.events = m.events)
    (pending : m'.pendingEvents = m.pendingEvents) : m'.Coherent ∧ m.Grows m' := by
  obtain ⟨count, days, tasks, index, finished, dags, dagIndex, events, waits, runs, kept⟩ := m
  obtain ⟨count', days', tasks', index', finished', dags', dagIndex', events', waits', runs', kept'⟩ := m'
  cases rows
  cases log
  cases pending
  exact ⟨⟨coherent.dated, coherent.waiting, coherent.shown, coherent.folded⟩,
    ⟨fun _ => id, fun _ row h => ⟨row, h, Nat.le_refl _⟩⟩⟩

/-! ### Rows that are added -/

theorem find?_put {new : TaskRow} {rows : List TaskRow} :
    (Ascending.put (fun a b => decide (a.id < b.id)) new rows).find? (·.id == i) =
      if i = new.id then some new else rows.find? (·.id == i) := by
  induction rows with
  | nil =>
    by_cases mine : i = new.id
    · simp [Ascending.put, mine]
    · simp [Ascending.put, mine, Ne.symm mine]
  | cons r rest ih =>
    unfold Ascending.put
    split
    · by_cases mine : i = new.id
      · simp [mine]
      · simp [mine, Ne.symm mine]
    · rename_i notBefore
      split
      · rename_i before
        have apart : (r.id == new.id) = false := by
          simpa using Int.ne_of_lt (of_decide_eq_true before)
        rw [List.find?_cons, List.find?_cons, ih]
        by_cases mine : i = new.id
        · simp [mine, apart]
        · simp [mine]
      · rename_i notAfter
        have same : r.id = new.id :=
          Int.le_antisymm (Int.not_lt.mp (mt decide_eq_true notBefore))
            (Int.not_lt.mp (mt decide_eq_true notAfter))
        by_cases mine : i = new.id
        · simp [mine]
        · simp [mine, Ne.symm mine, same]

theorem addTask_task? (m : ReadModel) (t : Task) :
    (m.addTask t).task? i =
      if i = t.id ∧ m.task? t.id = none then some (.ofTask t) else m.task? i := by
  unfold addTask
  split
  · rename_i known
    rw [if_neg fun both => by rw [both.2] at known; cases known]
  · rename_i unknown
    rw [Option.not_isSome_iff_eq_none] at unknown
    change (Ascending.put _ _ _).find? _ = _
    rw [find?_put]
    change (if i = t.id then _ else _) = _
    by_cases mine : i = t.id
    · rw [if_pos mine, if_pos ⟨mine, unknown⟩]
    · rw [if_neg mine, if_neg fun both => mine both.1]
      rfl

theorem addTask_same (m : ReadModel) (t : Task) :
    (m.addTask t).events = m.events ∧ (m.addTask t).pendingEvents = m.pendingEvents := by
  unfold addTask
  split <;> exact ⟨rfl, rfl⟩

/-- A row may be added as long as nothing was told of its task. -/
theorem addTask_coherent (coherent : m.Coherent)
    (fresh : m.task? t.id = none → ∀ e ∈ m.events, e.taskId ≠ t.id) : (m.addTask t).Coherent := by
  obtain ⟨log, pending⟩ := addTask_same m t
  refine ⟨log ▸ coherent.dated, ?_, ?_, ?_⟩
  · rw [pending, log]
    exact coherent.waiting
  · intro i row h
    rw [addTask_task?] at h
    rw [log]
    split at h
    · cases h
      exact Or.inl rfl
    · exact coherent.shown i row h
  · intro e he attempt leads row h
    unfold Leads at leads
    rw [log] at he leads
    rw [addTask_task?] at h
    split at h
    · rename_i new
      exact absurd new.1 (fresh new.2 e he)
    · have old := coherent.folded e he attempt leads row h
      unfold Waits waiting at old ⊢
      rwa [pending]

theorem addTask_grows (m : ReadModel) (t : Task) : m.Grows (m.addTask t) := by
  refine ⟨fun e he => (addTask_same m t).1 ▸ he, ?_⟩
  intro i row h
  refine ⟨row, ?_, Nat.le_refl _⟩
  rw [addTask_task?, if_neg, h]
  rintro ⟨rfl, missing⟩
  rw [missing] at h
  cases h

/-! ### Events that are logged -/

theorem insertEvents_coherent {now : Instant} {tenant : TenantId} {events : List TaskEvent}
    (coherent : m.Coherent) (dated : ∀ e ∈ events, ∀ e' ∈ m.events ++ events,
      e'.taskId = e.taskId → e'.taskInsertedAt = e.taskInsertedAt) :
    (m.insertEvents now tenant events).Coherent := by
  let own := events.filter (·.tenantId == tenant)
  have listed : ∀ e ∈ own, e ∈ events := fun _ he => (List.mem_filter.mp he).1
  have whole : ∀ e ∈ m.events ++ own, e ∈ m.events ++ events := fun e he =>
    (List.mem_append.mp he).elim (List.mem_append_left _) fun new =>
      List.mem_append_right _ (listed e new)
  refine ⟨?_, ?_, ?_, ?_⟩
  · intro e he e' he' same
    rcases List.mem_append.mp he with old | new
    · rcases List.mem_append.mp he' with old' | new'
      · exact coherent.dated e old e' old' same
      · exact (dated e' (listed e' new') e (whole e he) same.symm).symm
    · exact dated e (listed e new) e' (whole e' he') same
  · intro q hq
    rcases List.mem_append.mp hq with old | new
    · obtain ⟨e, he, same⟩ := coherent.waiting q old
      exact ⟨e, List.mem_append_left _ he, same⟩
    · obtain ⟨e, he, rfl⟩ := List.mem_map.mp new
      exact ⟨e, List.mem_append_right _ he, rfl, rfl, rfl⟩
  · intro i row h
    refine (coherent.shown i row h).imp_right ?_
    rintro ⟨e, he, told⟩
    exact ⟨e, List.mem_append_left _ he, told⟩
  · intro e he attempt leads row h
    rcases List.mem_append.mp he with old | new
    · have before := coherent.folded e old attempt
        (fun e' he' => leads e' (List.mem_append_left _ he')) row h
      refine before.imp_left ?_
      rintro ⟨p, hp, mark⟩
      obtain ⟨⟨share, waits⟩, mine⟩ := mem_waiting.mp hp
      exact ⟨p, mem_waiting.mpr ⟨⟨share, List.mem_append_left _ waits⟩, mine⟩, mark⟩
    · refine Or.inl ⟨.ofEvent e now, mem_waiting.mpr ⟨⟨m.share e.taskId, ?_⟩, rfl⟩, rfl⟩
      exact List.mem_append_right _ (List.mem_map.mpr ⟨e, new, rfl⟩)

theorem insertEvents_grows (m : ReadModel) (now : Instant) (tenant : TenantId)
    (events : List TaskEvent) : m.Grows (m.insertEvents now tenant events) :=
  ⟨fun _ => List.mem_append_left _, fun _ row h => ⟨row, h, Nat.le_refl _⟩⟩

/-! ### Passes -/

variable {tenant : TenantId} {share limit n : Nat} {now : Instant}

/-- Of the events of its task that the pass takes, this is one with the highest mark. -/
def Takes (m : ReadModel) (tenant : TenantId) (share limit : Nat) (now : Instant) (e : TaskEvent) :
    Prop :=
  (∃ p ∈ m.taking tenant share limit now e.taskId, p.mark = e.mark) ∧
    ∀ p ∈ m.taking tenant share limit now e.taskId, p.mark ≤ e.mark

/-- A row after a pass shows what it has shown, or the event that was taken for it. -/
theorem foldTasks_row (coherent : m.Coherent) (done : m.foldTasks tenant share limit now = .ok (n, m'))
    (h : m.task? i = some row) :
    ∃ row', m'.task? i = some row' ∧ (row'.mark = row.mark ∨
      ∃ e ∈ m.events, e.taskId = i ∧ m.Takes tenant share limit now e ∧
        e.mark.replaces row.mark = true ∧ row'.mark = e.mark) := by
  obtain ⟨insertedAt, dated⟩ := coherent.waiting_dated i
  obtain ⟨row', passed⟩ := foldTasks_passed h dated done
  refine ⟨row', passed.found, ?_⟩
  rcases passed.mark with ⟨_, unchanged⟩ | ⟨top, htop, highest, mark⟩
  · exact Or.inl unchanged
  · split at mark
    · rename_i may
      obtain ⟨e, he, mine, told⟩ :=
        coherent.waiting_logged ((passed.events top).mpr (Or.inl htop))
      subst mine
      rw [← told] at may highest mark
      exact Or.inr ⟨e, he, rfl, ⟨⟨top, htop, told.symm⟩, highest⟩, may, mark⟩
    · exact Or.inl mark

/-- The event that a pass takes is applied if it may be. -/
theorem foldTasks_applies (coherent : m.Coherent)
    (done : m.foldTasks tenant share limit now = .ok (n, m')) (h : m.task? e.taskId = some row)
    (takes : m.Takes tenant share limit now e) :
    ∃ row', m'.task? e.taskId = some row' ∧
      row'.mark = if e.mark.replaces row.mark then e.mark else row.mark := by
  obtain ⟨⟨p, hp, told⟩, highest⟩ := takes
  obtain ⟨insertedAt, dated⟩ := coherent.waiting_dated e.taskId
  obtain ⟨row', passed⟩ := foldTasks_passed h dated done
  refine ⟨row', passed.found, ?_⟩
  rcases passed.mark with ⟨empty, _⟩ | ⟨top, htop, above, mark⟩
  · rw [empty] at hp
    cases hp
  · have same : top.mark = e.mark := le_antisymm (highest top htop) (told ▸ above p hp)
    rwa [same] at mark

theorem foldTasks_grows (coherent : m.Coherent)
    (done : m.foldTasks tenant share limit now = .ok (n, m')) : m.Grows m' := by
  refine ⟨fun e he => (foldTasks_same done).1 ▸ he, ?_⟩
  intro i row h
  obtain ⟨row', found, same | ⟨e, _, _, _, may, mark⟩⟩ := foldTasks_row coherent done h
  · exact ⟨row', found, Nat.le_of_eq (congrArg (·.status.rank) same.symm)⟩
  · refine ⟨row', found, ?_⟩
    have rank := congrArg (·.status.rank) mark
    exact Nat.le_of_lt (rank ▸ (Mark.replaces_iff.mp may).2)

theorem foldTasks_coherent (coherent : m.Coherent)
    (done : m.foldTasks tenant share limit now = .ok (n, m')) : m'.Coherent := by
  obtain ⟨log, rowless, pending⟩ := foldTasks_same done
  have before : ∀ i row', m'.task? i = some row' → ∃ row, m.task? i = some row := by
    intro i row' h'
    cases h : m.task? i with
    | none =>
      rw [rowless i h] at h'
      cases h'
    | some row => exact ⟨row, rfl⟩
  refine ⟨log ▸ coherent.dated, ?_, ?_, ?_⟩
  · intro q hq
    obtain ⟨p, hp, same⟩ := pending q hq
    obtain ⟨e, he, same'⟩ := coherent.waiting p hp
    rw [log]
    exact ⟨e, he, same'.trans same⟩
  · intro i row' h'
    obtain ⟨row, h⟩ := before i row' h'
    obtain ⟨row₁, found, mark⟩ := foldTasks_row coherent done h
    cases h'.symm.trans found
    rw [log]
    rcases mark with same | ⟨e, he, mine, _, _, mark⟩
    · rw [same]
      exact coherent.shown i row h
    · exact Or.inr ⟨e, he, mine, mark.symm⟩
  · intro e he attempt leads row' h'
    unfold Leads at leads
    rw [log] at he leads
    obtain ⟨row, h⟩ := before _ row' h'
    obtain ⟨row₁, found, rises⟩ := (foldTasks_grows coherent done).rows _ row h
    cases h'.symm.trans found
    rcases coherent.folded e he attempt leads row h with ⟨p, hp, told⟩ | high
    · obtain ⟨insertedAt, dated⟩ := coherent.waiting_dated e.taskId
      obtain ⟨row₂, passed⟩ := foldTasks_passed h dated done
      rcases (passed.events p).mp hp with taken | waits
      · -- The event was taken, so that nothing taken has a higher mark.
        have takes : m.Takes tenant share limit now e := by
          refine ⟨⟨p, taken, told⟩, fun q hq => ?_⟩
          obtain ⟨e', he', mine', told'⟩ :=
            coherent.waiting_logged ((passed.events q).mpr (Or.inl hq))
          rw [← told']
          exact leads e' he' mine'
        obtain ⟨row₃, found₃, mark⟩ := foldTasks_applies coherent done h takes
        cases h'.symm.trans found₃
        refine Or.inr ?_
        split at mark
        · exact Nat.le_of_eq (congrArg (·.status.rank) mark.symm)
        · rename_i refused
          have earlier : row.latestRetryCount ≤ e.retryCount := by
            rcases coherent.shown _ row h with fresh | ⟨e', he', mine', told'⟩
            · have zero := congrArg Mark.retryCount fresh
              exact Int.le_trans (Int.le_of_eq zero) attempt
            · have below := leads e' he' mine'
              rw [told'] at below
              rcases Mark.le_iff.mp below with less | ⟨same, _⟩
              · exact Int.le_of_lt less
              · exact Int.le_of_eq same
          rw [Mark.replaces_iff] at refused
          have rank := congrArg (·.status.rank) mark
          exact Nat.le_trans (Nat.le_of_not_lt fun lower => refused ⟨earlier, lower⟩) (Nat.le_of_eq rank.symm)
      · exact Or.inl ⟨p, waits, told⟩
    · exact Or.inr (Nat.le_trans high rises)

end WorkflowEngine.ReadModel
