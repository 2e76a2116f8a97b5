import WorkflowEngine.Proofs.Fallible
import WorkflowEngine.Proofs.ReadModel.Fold
import WorkflowEngine.ReadModel.State

/-!
What a pass over the pending events does to one row: of the events it takes the highest mark replaces
what the row shows, if it may. All that it does not take stays.
-/

namespace WorkflowEngine.ReadModel

open Fallible

variable {m m' : ReadModel} {row : TaskRow} {i : TaskId} {f : Folded} {fs : List Folded}

/-! ### Taking what is due -/

theorem mem_takeDue {α : Type} {due : α → Bool} {limit : Nat} {l : List α} {a : α} :
    a ∈ l ↔ a ∈ (takeDue due limit l).1 ∨ a ∈ (takeDue due limit l).2 := by
  induction l generalizing limit with
  | nil => simp [takeDue]
  | cons b rest ih =>
    cases limit with
    | zero => simp [takeDue]
    | succ limit =>
      unfold takeDue
      split
      · rw [List.mem_cons, List.mem_cons, @ih limit]
        tauto
      · rw [List.mem_cons, List.mem_cons, @ih (limit + 1)]
        tauto

/-- With room for all, everything that is due is taken. -/
theorem takeDue_all {α : Type} {due : α → Bool} {limit : Nat} {l : List α} (room : l.length ≤ limit) :
    ∀ a ∈ (takeDue due limit l).2, due a = false := by
  induction l generalizing limit with
  | nil => simp [takeDue]
  | cons b rest ih =>
    cases limit with
    | zero => simp at room
    | succ limit =>
      rw [List.length_cons] at room
      unfold takeDue
      split
      · exact ih (Nat.le_of_succ_le_succ room)
      · rename_i early
        intro a ha
        rcases List.mem_cons.mp ha with rfl | later
        · simpa using early
        · exact ih (Nat.le_of_succ_le room) a later

/-! ### Applying candidates -/

/-- The same task, whatever is shown of it. -/
structure SameRow (r r' : TaskRow) : Prop where
  id : r'.id = r.id
  tenant : r'.tenantId = r.tenantId
  insertedAt : r'.insertedAt = r.insertedAt

theorem SameRow.refl (r : TaskRow) : SameRow r r := ⟨rfl, rfl, rfl⟩

theorem SameRow.trans {r₁ r₂ r₃ : TaskRow} (first : SameRow r₁ r₂) (second : SameRow r₂ r₃) :
    SameRow r₁ r₃ :=
  ⟨second.id.trans first.id, second.tenant.trans first.tenant,
    second.insertedAt.trans first.insertedAt⟩

theorem task?_id (h : m.task? i = some row) : row.id = i := by
  simpa using List.find?_some h

/-- A row that is written over is found in its place, and no other row is touched. -/
theorem find?_replace {rows : List TaskRow} {new : TaskRow} :
    (rows.map fun r => if r.id == new.id then new else r).find? (·.id == i) =
      if i = new.id then (rows.find? (·.id == i)).map fun _ => new
      else rows.find? (·.id == i) := by
  induction rows with
  | nil => simp
  | cons r rest ih =>
    rw [List.map_cons, List.find?_cons, List.find?_cons, ih]
    by_cases here : r.id = new.id
    · by_cases mine : i = new.id
      · simp [here, mine]
      · have other : (new.id == i) = false := by simpa using Ne.symm mine
        simp [here, mine, other]
    · by_cases mine : i = new.id
      · have other : (r.id == new.id) = false := by simpa using here
        simp [mine, other]
      · simp [here, mine]

/-- The mark of a candidate, for a row of its task that it may replace. -/
theorem applyFolded_mark (h : m.task? i = some row) :
    ∃ row', (m.applyFolded f).2.task? i = some row' ∧ SameRow row row' ∧
      row'.mark = if f.taskId = i ∧ f.mark.replaces row.mark then f.mark else row.mark := by
  unfold applyFolded
  split
  · rename_i rejected
    refine ⟨row, h, .refl row, ?_⟩
    rw [if_neg]
    rintro ⟨rfl, may⟩
    rw [target?, h] at rejected
    simp only [Option.filter_eq_none_iff, Option.some.injEq, forall_eq'] at rejected
    exact rejected may
  · rename_i target accepted
    obtain ⟨found, may⟩ := Option.filter_eq_some_iff.mp accepted
    have id := task?_id found
    by_cases mine : f.taskId = i
    · subst mine
      rw [h] at found
      cases found
      refine ⟨applyTo row f, ?_, ⟨rfl, rfl, rfl⟩, ?_⟩
      · change (List.map _ _).find? _ = _
        rw [find?_replace, if_pos (show f.taskId = (applyTo row f).id from id.symm)]
        change Option.map _ (m.task? f.taskId) = _
        rw [h]
        rfl
      · rw [if_pos ⟨rfl, may⟩]
        rfl
    · refine ⟨row, ?_, .refl row, by rw [if_neg (fun both => mine both.1)]⟩
      change (List.map _ _).find? _ = _
      rw [find?_replace, if_neg (by rw [show (applyTo target f).id = f.taskId from id]; exact Ne.symm mine)]
      exact h

/-- If all candidates of a task have one mark, that mark is applied if there is one at all. -/
theorem applyAll_mark {mark : Mark} (h : m.task? i = some row)
    (agree : ∀ f ∈ fs, f.taskId = i → f.mark = mark) :
    ∃ row', (m.applyAll fs).2.task? i = some row' ∧ SameRow row row' ∧
      row'.mark = if (∃ f ∈ fs, f.taskId = i) ∧ mark.replaces row.mark then mark else row.mark := by
  induction fs generalizing m row with
  | nil => exact ⟨row, h, .refl row, by simp⟩
  | cons f rest ih =>
    obtain ⟨row₁, found₁, same₁, mark₁⟩ := applyFolded_mark (f := f) h
    obtain ⟨row₂, found₂, same₂, mark₂⟩ :=
      ih found₁ fun f' hf' => agree f' (List.mem_cons_of_mem _ hf')
    refine ⟨row₂, found₂, same₁.trans same₂, ?_⟩
    rw [mark₂]
    by_cases mine : f.taskId = i
    · have equal := agree f List.mem_cons_self mine
      have some : ∃ f' ∈ f :: rest, f'.taskId = i := ⟨f, List.mem_cons_self, mine⟩
      by_cases may : mark.replaces row.mark = true
      · rw [if_pos ⟨mine, by rw [equal]; exact may⟩, equal] at mark₁
        rw [mark₁, ite_self, if_pos ⟨some, may⟩]
      · rw [if_neg fun both => may (by rw [← equal]; exact both.2)] at mark₁
        rw [mark₁, if_neg fun both => may both.2, if_neg fun both => may both.2]
    · rw [if_neg fun both => mine both.1] at mark₁
      have rest : (∃ f' ∈ f :: rest, f'.taskId = i) ↔ ∃ f' ∈ rest, f'.taskId = i := by
        simp [mine]
      simp only [mark₁, rest]

/-- No row comes into being by a candidate. -/
theorem applyFolded_rowless (h : m.task? i = none) : (m.applyFolded f).2.task? i = none := by
  unfold applyFolded
  split
  · exact h
  · change (List.map _ _).find? _ = _
    rw [task?] at h
    rw [find?_replace, h, Option.map_none, ite_self]

theorem applyAll_rowless (h : m.task? i = none) : (m.applyAll fs).2.task? i = none := by
  induction fs generalizing m with
  | nil => exact h
  | cons f rest ih => exact ih (applyFolded_rowless h)

theorem applyFolded_pending : (m.applyFolded f).2.pendingEvents = m.pendingEvents ∧
    (m.applyFolded f).2.partitionCount = m.partitionCount ∧
      (m.applyFolded f).2.events = m.events := by
  unfold applyFolded
  split <;> exact ⟨rfl, rfl, rfl⟩

theorem applyAll_pending : (m.applyAll fs).2.pendingEvents = m.pendingEvents ∧
    (m.applyAll fs).2.partitionCount = m.partitionCount ∧ (m.applyAll fs).2.events = m.events := by
  induction fs generalizing m with
  | nil => exact ⟨rfl, rfl, rfl⟩
  | cons f rest ih =>
    obtain ⟨pending, count, log⟩ := applyFolded_pending (m := m) (f := f)
    obtain ⟨pending', count', log'⟩ := ih (m := (m.applyFolded f).2)
    exact ⟨pending'.trans pending, count'.trans count, log'.trans log⟩

/-! ### A pass -/

/-- The events of a task that wait to be folded. -/
def waiting (m : ReadModel) (i : TaskId) : List Pending :=
  (m.pendingEvents.map (·.2)).filter (·.taskId == i)

theorem mem_waiting {p : Pending} :
    p ∈ m.waiting i ↔ (∃ share, (share, p) ∈ m.pendingEvents) ∧ p.taskId = i := by
  simp [waiting]

theorem queueDags_same {tenant : TenantId} {now : Instant} {ids : List DagId} :
    let m' := ids.foldl (fun m id => m.queueDag tenant now id) m
    m'.tasks = m.tasks ∧ m'.pendingEvents = m.pendingEvents ∧
      m'.partitionCount = m.partitionCount ∧ m'.events = m.events := by
  induction ids generalizing m with
  | nil => exact ⟨rfl, rfl, rfl, rfl⟩
  | cons id rest ih =>
    obtain ⟨tasks, pending, count, log⟩ := ih (m := m.queueDag tenant now id)
    have first : (m.queueDag tenant now id).tasks = m.tasks ∧
        (m.queueDag tenant now id).pendingEvents = m.pendingEvents ∧
        (m.queueDag tenant now id).partitionCount = m.partitionCount ∧
        (m.queueDag tenant now id).events = m.events := by
      unfold queueDag
      split <;> exact ⟨rfl, rfl, rfl, rfl⟩
    exact ⟨tasks.trans first.1, pending.trans first.2.1, count.trans first.2.2.1,
      log.trans first.2.2.2⟩

/-- The same event of the same task, however often it was put back. -/
structure SameEvent (p q : Pending) : Prop where
  task : q.taskId = p.taskId
  insertedAt : q.taskInsertedAt = p.taskInsertedAt
  mark : q.mark = p.mark

theorem SameEvent.refl (p : Pending) : SameEvent p p := ⟨rfl, rfl, rfl⟩

theorem SameEvent.trans {p q r : Pending} (first : SameEvent p q) (second : SameEvent q r) :
    SameEvent p r :=
  ⟨second.task.trans first.task, second.insertedAt.trans first.insertedAt,
    second.mark.trans first.mark⟩

theorem requeued_same {p q : Pending} {now : Instant} (h : p.requeued now = .ok (some q)) :
    SameEvent p q := by
  unfold Pending.requeued at h
  split at h
  · cases h
  · obtain ⟨after, _, h⟩ := bind_ok h
    cases h
    exact ⟨rfl, rfl, rfl⟩

/-- Only events of tasks without a row are put back. -/
theorem putBack_ok {share : Nat} {now : Instant} {batch : List Pending}
    (h : m.putBack share now batch = .ok m') :
    m'.tasks = m.tasks ∧ m'.events = m.events ∧
      ∃ again : List Pending, m'.pendingEvents = m.pendingEvents ++ again.map (share, ·) ∧
        ∀ q ∈ again, m.task? q.taskId = none ∧ ∃ p ∈ batch, SameEvent p q := by
  obtain ⟨again, requeued, h⟩ := bind_ok h
  cases h
  refine ⟨rfl, rfl, again, rfl, ?_⟩
  intro q hq
  obtain ⟨p, hp, back⟩ := mem_of_filterMapM requeued hq
  have same := requeued_same back
  obtain ⟨listed, missing⟩ := List.mem_filter.mp hp
  exact ⟨by rw [same.task]; simpa using missing, p, listed, same⟩

/-- What a pass does for one task: it takes some of its events, and their highest mark replaces that
of the row if it may. -/
structure Passed (m m' : ReadModel) (i : TaskId) (row row' : TaskRow) (taken : List Pending) :
    Prop where
  found : m'.task? i = some row'
  same : SameRow row row'
  events : ∀ p, p ∈ m.waiting i ↔ p ∈ taken ∨ p ∈ m'.waiting i
  mark : (taken = [] ∧ row'.mark = row.mark) ∨
    ∃ top ∈ taken, (∀ p ∈ taken, p.mark ≤ top.mark) ∧
      row'.mark = if top.mark.replaces row.mark then top.mark else row.mark

/-- The candidates of a batch that are of the task all have the highest mark of its events. -/
theorem candidates_agree {batch : List Pending} {insertedAt : Instant}
    (created : ∀ p ∈ batch, p.taskId = i → p.taskInsertedAt = insertedAt) :
    (batch.filter (·.taskId == i) = [] ∧ ∀ f ∈ foldPending batch, f.taskId ≠ i) ∨
      ∃ top ∈ batch.filter (·.taskId == i),
        (∀ p ∈ batch.filter (·.taskId == i), p.mark ≤ top.mark) ∧
          (∃ f ∈ foldPending batch, f.taskId = i) ∧
            ∀ f ∈ foldPending batch, f.taskId = i → f.mark = top.mark := by
  have sums := foldPending_summarizes batch
  have taskOf : ∀ {f : Folded} {p : Pending}, p.place = f.place → p.taskId = f.taskId :=
    fun same => congrArg Prod.fst (toLex.injective same)
  have placeOf : ∀ {f : Folded} {p q : Pending}, p ∈ batch → p.taskId = i → q ∈ batch →
      q.taskId = i → q.place = f.place → p.place = f.place := by
    intro f p q hp mine hq mine' same
    rw [← same, Pending.place, Pending.place, mine, mine', created p hp mine, created q hq mine']
  by_cases some : ∃ f ∈ foldPending batch, f.taskId = i
  · obtain ⟨f, hf, mine⟩ := some
    obtain ⟨top, htop, place, mark⟩ := sums.listed f hf
    have own : top.taskId = i := (taskOf place).trans mine
    refine Or.inr ⟨top, List.mem_filter.mpr ⟨htop, by simpa using own⟩, ?_, ⟨f, hf, mine⟩, ?_⟩
    · intro p hp
      obtain ⟨hp, his⟩ := List.mem_filter.mp hp
      rw [mark]
      exact sums.highest f hf p hp (placeOf hp (eq_of_beq his) htop own place)
    · intro f' hf' mine'
      obtain ⟨top', htop', place', mark'⟩ := sums.listed f' hf'
      have own' : top'.taskId = i := (taskOf place').trans mine'
      refine le_antisymm ?_ ?_
      · rw [mark, ← mark']
        exact sums.highest f hf top' htop' (placeOf htop' own' htop own place)
      · exact sums.highest f' hf' top htop (placeOf htop own htop' own' place')
  · refine Or.inl ⟨List.filter_eq_nil_iff.mpr ?_, fun f hf mine => some ⟨f, hf, mine⟩⟩
    intro p hp his
    obtain ⟨f, hf, place⟩ := sums.covered p hp
    exact some ⟨f, hf, (taskOf place.symm).symm.trans (eq_of_beq his)⟩

theorem foldTasks_ok {tenant : TenantId} {share limit n : Nat} {now : Instant}
    (done : m.foldTasks tenant share limit now = .ok (n, m')) :
    ∃ m₁ m₂ : ReadModel,
      m₁ = (applyAll { m with
        pendingEvents := (takeDue (eventDue tenant share now) limit m.pendingEvents).2 }
          (foldPending ((takeDue (eventDue tenant share now) limit m.pendingEvents).1.map (·.2)))).2 ∧
      m₁.putBack share now
        ((takeDue (eventDue tenant share now) limit m.pendingEvents).1.map (·.2)) = .ok m₂ ∧
      m'.tasks = m₂.tasks ∧ m'.pendingEvents = m₂.pendingEvents ∧
        m'.partitionCount = m₂.partitionCount ∧ m'.events = m₂.events := by
  simp only [foldTasks] at done
  obtain ⟨m₂, back, done⟩ := bind_ok done
  cases done
  exact ⟨_, m₂, rfl, back, queueDags_same⟩

/-- The events of the task that a pass takes. -/
def taking (m : ReadModel) (tenant : TenantId) (share limit : Nat) (now : Instant) (i : TaskId) :
    List Pending :=
  ((takeDue (eventDue tenant share now) limit m.pendingEvents).1.map (·.2)).filter (·.taskId == i)

theorem foldTasks_passed {tenant : TenantId} {share limit n : Nat} {now insertedAt : Instant}
    (h : m.task? i = some row) (created : ∀ p ∈ m.waiting i, p.taskInsertedAt = insertedAt)
    (done : m.foldTasks tenant share limit now = .ok (n, m')) :
    ∃ row', Passed m m' i row row' (m.taking tenant share limit now i) := by
  obtain ⟨m₁, m₂, applied, back, tasks, pending, _⟩ := foldTasks_ok done
  obtain ⟨tasks₂, _, again, pending₂, orphans⟩ := putBack_ok back
  unfold taking
  generalize split : takeDue (eventDue tenant share now) limit m.pendingEvents = parts at *
  obtain ⟨taken, kept⟩ := parts
  have whole : ∀ q, q ∈ m.pendingEvents ↔ q ∈ taken ∨ q ∈ kept := by
    intro q
    rw [mem_takeDue, split]
  have ofBatch : ∀ p ∈ taken.map (·.2), p.taskId = i → p.taskInsertedAt = insertedAt := by
    intro p hp mine
    obtain ⟨q, hq, rfl⟩ := List.mem_map.mp hp
    exact created q.2 (mem_waiting.mpr ⟨⟨q.1, (whole q).mpr (Or.inl hq)⟩, mine⟩)
  have pending₁ : m₁.pendingEvents = kept := by rw [applied, applyAll_pending.1]
  have start : ({ m with pendingEvents := kept } : ReadModel).task? i = some row := h
  -- The row after the pass: the candidates of the task, if any, agree on the mark to apply.
  obtain ⟨row', found₁, same, mark⟩ : ∃ row', m₁.task? i = some row' ∧ SameRow row row' ∧
      (((taken.map (·.2)).filter (·.taskId == i) = [] ∧ row'.mark = row.mark) ∨
        ∃ top ∈ (taken.map (·.2)).filter (·.taskId == i),
          (∀ p ∈ (taken.map (·.2)).filter (·.taskId == i), p.mark ≤ top.mark) ∧
            row'.mark = if top.mark.replaces row.mark then top.mark else row.mark) := by
    rw [applied]
    rcases candidates_agree ofBatch with ⟨empty, none⟩ | ⟨top, htop, highest, some, agree⟩
    · obtain ⟨row', found, same, mark⟩ := applyAll_mark start
        fun f hf mine => (absurd mine (none f hf) : f.mark = row.mark)
      exact ⟨row', found, same, Or.inl ⟨empty, by rw [mark, ite_self]⟩⟩
    · obtain ⟨row', found, same, mark⟩ := applyAll_mark start agree
      refine ⟨row', found, same, Or.inr ⟨top, htop, highest, ?_⟩⟩
      simpa only [some, true_and] using mark
  refine ⟨row', ?_, same, ?_, mark⟩
  · rw [task?, tasks, tasks₂]
    exact found₁
  · intro p
    rw [mem_waiting, mem_waiting, pending, pending₂, pending₁]
    constructor
    · rintro ⟨⟨k, hq⟩, mine⟩
      rcases (whole _).mp hq with here | left
      · exact Or.inl (List.mem_filter.mpr ⟨List.mem_map.mpr ⟨_, here, rfl⟩, by simpa using mine⟩)
      · exact Or.inr ⟨⟨k, List.mem_append_left _ left⟩, mine⟩
    · rintro (here | ⟨⟨k, hq⟩, mine⟩)
      · obtain ⟨hp, mine⟩ := List.mem_filter.mp here
        obtain ⟨q, hq, rfl⟩ := List.mem_map.mp hp
        exact ⟨⟨q.1, (whole _).mpr (Or.inl hq)⟩, eq_of_beq mine⟩
      · rcases List.mem_append.mp hq with left | orphan
        · exact ⟨⟨k, (whole _).mpr (Or.inr left)⟩, mine⟩
        · obtain ⟨p', hp', same⟩ := List.mem_map.mp orphan
          cases same
          have missing := (orphans p hp').1
          rw [mine, found₁] at missing
          cases missing

/-- Of a task with a row only what was not taken still waits. -/
theorem foldTasks_kept {tenant : TenantId} {share limit n : Nat} {now : Instant} {p : Pending}
    (found : m'.task? i = some row) (done : m.foldTasks tenant share limit now = .ok (n, m'))
    (h : p ∈ m'.waiting i) :
    ∃ k, (k, p) ∈ (takeDue (eventDue tenant share now) limit m.pendingEvents).2 := by
  obtain ⟨m₁, m₂, applied, back, tasks, pending, _⟩ := foldTasks_ok done
  obtain ⟨tasks₂, _, again, pending₂, orphans⟩ := putBack_ok back
  obtain ⟨⟨k, hp⟩, mine⟩ := mem_waiting.mp h
  rw [pending, pending₂, applied, applyAll_pending.1] at hp
  rcases List.mem_append.mp hp with kept | orphan
  · exact ⟨k, kept⟩
  · obtain ⟨q, hq, same⟩ := List.mem_map.mp orphan
    cases same
    have missing := (orphans p hq).1
    rw [mine, task?, ← tasks₂, ← tasks] at missing
    rw [task?] at found
    rw [found] at missing
    cases missing

/-- A pass adds no row and no event: what waits afterwards has waited before. -/
theorem foldTasks_same {tenant : TenantId} {share limit n : Nat} {now : Instant}
    (done : m.foldTasks tenant share limit now = .ok (n, m')) :
    m'.events = m.events ∧ (∀ i, m.task? i = none → m'.task? i = none) ∧
      ∀ q ∈ m'.pendingEvents, ∃ p ∈ m.pendingEvents, SameEvent p.2 q.2 := by
  obtain ⟨m₁, m₂, applied, back, tasks, pending, _, log⟩ := foldTasks_ok done
  obtain ⟨tasks₂, log₂, again, pending₂, orphans⟩ := putBack_ok back
  refine ⟨?_, ?_, ?_⟩
  · rw [log, log₂, applied, applyAll_pending.2.2]
  · intro i missing
    rw [task?, tasks, tasks₂, applied]
    exact applyAll_rowless missing
  · intro q hq
    rw [pending, pending₂, applied, applyAll_pending.1] at hq
    rcases List.mem_append.mp hq with kept | orphan
    · exact ⟨q, mem_takeDue.mpr (Or.inr kept), .refl q.2⟩
    · obtain ⟨q', hq', rfl⟩ := List.mem_map.mp orphan
      obtain ⟨_, p, hp, same⟩ := orphans q' hq'
      obtain ⟨taken, htaken, rfl⟩ := List.mem_map.mp hp
      exact ⟨taken, mem_takeDue.mpr (Or.inl htaken), same⟩

/-! ### Passes that go well -/

theorem requeueDelay_bounds {retries : Int} (few : retries < maxRequeues) :
    0 < requeueDelay retries ∧ requeueDelay retries ≤ 1024 := by
  have small : (min (max retries 0) maxRequeues).toNat ≤ 9 := by
    rw [maxRequeues] at few ⊢
    omega
  have positive : 0 < 2 ^ (min (max retries 0) maxRequeues).toNat := Nat.two_pow_pos _
  have bounded : 2 ^ (min (max retries 0) maxRequeues).toNat ≤ 2 ^ 9 :=
    Nat.pow_le_pow_right (by decide) small
  have cast : requeueDelay retries =
      ((2 * 2 ^ (min (max retries 0) maxRequeues).toNat : Nat) : Int) := by
    simp [requeueDelay]
  rw [cast]
  omega

/-- A clock within the calendar, with room for every delay before the end of it. -/
def Roomy (now : Instant) : Prop :=
  Instant.inRange now.nanos = true ∧ Instant.inRange (now.nanos + 1024 * 1000000000) = true

theorem roomy_epoch : Roomy .epoch := by
  have first : Date.minDay ≤ 0 := by decide
  have last : 0 ≤ Date.maxDay := by decide
  unfold Roomy Instant.inRange Instant.nanosPerDay Instant.epoch
  simp only [Bool.and_eq_true, decide_eq_true_eq]
  omega

theorem Roomy.deadline {now : Instant} {retries : Int} (roomy : Roomy now)
    (few : retries < maxRequeues) : Task.deadline now (requeueDelay retries) =
      .ok ⟨now.nanos + requeueDelay retries * 1000000000⟩ := by
  obtain ⟨positive, bounded⟩ := requeueDelay_bounds few
  have near : -Instant.maxSeconds ≤ requeueDelay retries ∧
      requeueDelay retries ≤ Instant.maxSeconds := by
    unfold Instant.maxSeconds
    omega
  have inCalendar : Instant.inRange (now.nanos + requeueDelay retries * 1000000000) = true := by
    unfold Roomy Instant.inRange at roomy
    unfold Instant.inRange
    simp only [Bool.and_eq_true, decide_eq_true_eq] at roomy ⊢
    omega
  rw [Task.deadline, Instant.addSeconds?, if_pos near, Instant.addNanos?, if_pos inCalendar]

theorem Roomy.requeued {now : Instant} (roomy : Roomy now) (p : Pending) :
    ∃ o, p.requeued now = .ok o := by
  unfold Pending.requeued
  split
  · exact ⟨none, rfl⟩
  · rename_i few
    rw [roomy.deadline (Int.not_le.mp few)]
    exact ⟨_, rfl⟩

theorem foldTasks_total {now : Instant} (roomy : Roomy now) (m : ReadModel) (tenant : TenantId)
    (share limit : Nat) : ∃ n m', m.foldTasks tenant share limit now = .ok (n, m') := by
  simp only [foldTasks, putBack]
  obtain ⟨again, requeued⟩ := filterMapM_total fun p
    (_ : p ∈ ((takeDue (eventDue tenant share now) limit m.pendingEvents).1.map (·.2)).filter
      fun p => ((applyAll { m with
        pendingEvents := (takeDue (eventDue tenant share now) limit m.pendingEvents).2 }
          (foldPending ((takeDue (eventDue tenant share now) limit
            m.pendingEvents).1.map (·.2)))).2.task? p.taskId).isNone) => roomy.requeued p
  rw [requeued]
  exact ⟨_, _, rfl⟩

end WorkflowEngine.ReadModel
