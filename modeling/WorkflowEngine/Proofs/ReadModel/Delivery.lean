import WorkflowEngine.Proofs.ReadModel.Pass

/-!
Deliveries of the events of one task: they are appended in any order and repeated at will, and passes
run at any moment in between. What the row shows in the end depends on the moments of the passes. It
does not if every event that could replace the row by itself gives way to the highest one of the
latest attempt, and only then.
-/

namespace WorkflowEngine

namespace Mark

variable {a b c start top : Mark} {marks : List Mark}

theorem replaces_trans (first : a.replaces b = true) (second : b.replaces c = true) :
    a.replaces c = true := by
  rw [replaces_iff] at first second ⊢
  exact ⟨Int.le_trans second.1 first.1, Nat.lt_trans second.2 first.2⟩

/-- The highest mark is replaced by none. -/
theorem not_replaces_of_le (le : a ≤ b) : a.replaces b = false := by
  rw [Bool.eq_false_iff]
  intro replaces
  obtain ⟨attempt, rank⟩ := replaces_iff.mp replaces
  rcases le_iff.mp le with later | ⟨_, lower⟩
  · exact Int.not_lt.mpr attempt later
  · exact Nat.not_lt.mpr lower rank

/-- Each mark that may replace what is shown at the start is of the latest attempt, or of a lower
status than that attempt reaches. -/
def Orderly (start : Mark) (marks : List Mark) : Prop :=
  ∀ a ∈ marks, a.replaces start = true →
    ∃ b ∈ marks, (∀ c ∈ marks, c.retryCount ≤ b.retryCount) ∧
      (a.retryCount = b.retryCount ∨ a.status.rank < b.status.rank)

instance : Decidable (Orderly start marks) := List.decidableBAll _ marks

theorem Orderly.replaced (orderly : Orderly start marks) (member : top ∈ marks)
    (highest : ∀ a ∈ marks, a ≤ top) (ha : a ∈ marks) (replaces : a.replaces start = true) :
    a = top ∨ top.replaces a = true := by
  obtain ⟨b, hb, latest, gives⟩ := orderly a ha replaces
  have attempt : top.retryCount = b.retryCount := by
    refine Int.le_antisymm (latest top member) ?_
    rcases le_iff.mp (highest b hb) with less | ⟨equal, _⟩
    · exact Int.le_of_lt less
    · exact Int.le_of_eq equal
  rw [replaces_iff]
  rcases le_iff.mp (highest a ha) with earlier | ⟨equal, rank⟩
  · refine Or.inr ⟨Int.le_of_lt earlier, ?_⟩
    have lower := gives.resolve_left (by rw [← attempt]; exact Int.ne_of_lt earlier)
    rcases le_iff.mp (highest b hb) with less | ⟨_, reached⟩
    · rw [attempt] at less
      exact absurd less (Int.lt_irrefl _)
    · exact Nat.lt_of_lt_of_le lower reached
  · rcases Nat.lt_or_eq_of_le rank with lower | same
    · exact Or.inr ⟨Int.le_of_eq equal, lower⟩
    · refine Or.inl (key_injective ?_)
      rw [key, key, equal, same]

/-- With some mark that may replace the start, the highest one does. -/
theorem Orderly.top_replaces (orderly : Orderly start marks) (member : top ∈ marks)
    (highest : ∀ a ∈ marks, a ≤ top) (ha : a ∈ marks) (replaces : a.replaces start = true) :
    top.replaces start = true := by
  rcases orderly.replaced member highest ha replaces with rfl | above
  · exact replaces
  · exact replaces_trans above replaces

theorem exists_highest (some : marks ≠ []) : ∃ top ∈ marks, ∀ a ∈ marks, a ≤ top := by
  induction marks with
  | nil => exact absurd rfl some
  | cons a rest ih =>
    cases rest with
    | nil => exact ⟨a, List.mem_cons_self, fun b hb => le_of_eq (List.mem_singleton.mp hb)⟩
    | cons b rest =>
      obtain ⟨top, member, highest⟩ := ih (List.cons_ne_nil _ _)
      rcases le_total a top with le | le
      · refine ⟨top, List.mem_cons_of_mem _ member, ?_⟩
        intro c hc
        rcases List.mem_cons.mp hc with rfl | later
        · exact le
        · exact highest c later
      · refine ⟨a, List.mem_cons_self, ?_⟩
        intro c hc
        rcases List.mem_cons.mp hc with rfl | later
        · exact le_refl _
        · exact le_trans (highest c later) le

end Mark

namespace ReadModel

open Fallible

variable {m m' : ReadModel} {row row' : TaskRow} {i : TaskId} {events : List TaskEvent}

/-- One step of a delivery. -/
inductive Action where
  | insert (now : Instant) (tenant : TenantId) (events : List TaskEvent)
  | fold (tenant : TenantId) (share limit : Nat) (positive : 0 < limit) (now : Instant)

/-- The events that come into the log by a step. -/
def Action.logged : Action → List TaskEvent
  | .insert _ tenant events => events.filter (·.tenantId == tenant)
  | .fold .. => []

def act (m : ReadModel) : Action → Except Fault ReadModel
  | .insert now tenant events => .ok (m.insertEvents now tenant events)
  | .fold tenant share limit _ now => do return (← m.foldTasks tenant share limit now).2

def deliver (m : ReadModel) (actions : List Action) : Except Fault ReadModel :=
  actions.foldlM act m

/-- Of one task exactly these events are delivered, until none of them waits. -/
structure Delivers (m : ReadModel) (i : TaskId) (events : List TaskEvent) (actions : List Action)
    (m' : ReadModel) : Prop where
  ends : m.deliver actions = .ok m'
  exactly : ∀ e, e ∈ events ↔ e ∈ actions.flatMap Action.logged ∧ e.taskId = i
  drained : m'.waiting i = []

/-- What a row shows of its task. -/
def shown (m : ReadModel) (i : TaskId) : Option Mark := (m.task? i).map (·.mark)

theorem mem_waiting_insertEvents {now : Instant} {tenant : TenantId} {p : Pending} :
    p ∈ (m.insertEvents now tenant events).waiting i ↔ p ∈ m.waiting i ∨
      ∃ e ∈ events.filter (·.tenantId == tenant), e.taskId = i ∧ p = .ofEvent e now := by
  simp only [waiting, insertEvents, List.map_append, List.filter_append, List.mem_append]
  refine or_congr Iff.rfl ?_
  simp only [List.map_map, List.mem_filter, List.mem_map, Function.comp_apply, beq_iff_eq]
  constructor
  · rintro ⟨⟨e, he, rfl⟩, mine⟩
    exact ⟨e, he, mine, rfl⟩
  · rintro ⟨e, he, mine, rfl⟩
    exact ⟨⟨e, he, rfl⟩, mine⟩

/-! ### Orderly events -/

section
variable {start : TaskRow} {marks : List Mark} {top : Mark} {delivered : List TaskEvent}
  {action : Action} {actions : List Action}

/-- Marks of which one may replace the start, in order, the highest of them known. -/
structure Settling (start : Mark) (marks : List Mark) (top : Mark) : Prop where
  orderly : Mark.Orderly start marks
  member : top ∈ marks
  highest : ∀ a ∈ marks, a ≤ top
  replaces : top.replaces start = true

/-- Where a delivery stands: the row shows what it did at the start or a mark that may replace that.
If the marks are settling, the highest of them waits or is shown once it was delivered. -/
structure Underway (start : TaskRow) (marks : List Mark) (top : Mark) (delivered : List TaskEvent)
    (m : ReadModel) (i : TaskId) (row : TaskRow) : Prop where
  found : m.task? i = some row
  same : SameRow start row
  shows : row.mark = start.mark ∨ (row.mark ∈ marks ∧ row.mark.replaces start.mark = true)
  waiting : ∀ p ∈ m.waiting i, p.taskInsertedAt = start.insertedAt ∧ p.mark ∈ marks
  top : Settling start.mark marks top → (∃ e ∈ delivered, e.taskId = i ∧ e.mark = top) →
    (∃ p ∈ m.waiting i, p.mark = top) ∨ row.mark = top

theorem Underway.insert {now : Instant} {tenant : TenantId}
    (underway : Underway start marks top delivered m i row)
    (own : ∀ e ∈ events.filter (·.tenantId == tenant), e.taskId = i →
      e.taskInsertedAt = start.insertedAt ∧ e.mark ∈ marks) :
    Underway start marks top (delivered ++ events.filter (·.tenantId == tenant))
      (m.insertEvents now tenant events) i row := by
  refine ⟨underway.found, underway.same, underway.shows, ?_, ?_⟩
  · intro p hp
    rcases mem_waiting_insertEvents.mp hp with old | ⟨e, he, mine, rfl⟩
    · exact underway.waiting p old
    · exact own e he mine
  · rintro settling ⟨e, he, mine, equal⟩
    rcases List.mem_append.mp he with before | now
    · rcases underway.top settling ⟨e, before, mine, equal⟩ with ⟨p, hp, mark⟩ | shown
      · exact Or.inl ⟨p, mem_waiting_insertEvents.mpr (Or.inl hp), mark⟩
      · exact Or.inr shown
    · exact Or.inl ⟨_, mem_waiting_insertEvents.mpr (Or.inr ⟨e, now, mine, rfl⟩), equal⟩

theorem Underway.fold {tenant : TenantId} {share limit n : Nat} {now : Instant}
    (underway : Underway start marks top delivered m i row)
    (done : m.foldTasks tenant share limit now = .ok (n, m')) :
    ∃ row', Underway start marks top delivered m' i row' := by
  have created : ∀ p ∈ m.waiting i, p.taskInsertedAt = row.insertedAt := by
    intro p hp
    rw [underway.same.insertedAt]
    exact (underway.waiting p hp).1
  obtain ⟨row', passed⟩ := foldTasks_passed underway.found created done
  refine ⟨row', passed.found, underway.same.trans passed.same, ?_, ?_, ?_⟩
  · rcases passed.mark with ⟨_, mark⟩ | ⟨winner, hw, _, mark⟩
    · rw [mark]
      exact underway.shows
    · rw [mark]
      split
      · rename_i replaces
        refine Or.inr ⟨(underway.waiting winner ((passed.events winner).mpr (Or.inl hw))).2, ?_⟩
        rcases underway.shows with same | ⟨_, above⟩
        · rwa [same] at replaces
        · exact Mark.replaces_trans replaces above
      · exact underway.shows
  · exact fun p hp => underway.waiting p ((passed.events p).mpr (Or.inr hp))
  · intro settling logged
    rcases underway.top settling logged with ⟨p, hp, equal⟩ | shown
    · rcases (passed.events p).mp hp with taken | left
      · rcases passed.mark with ⟨none, _⟩ | ⟨winner, hw, highest, mark⟩
        · rw [none] at taken
          cases taken
        · -- The highest mark of all is in the batch, so the batch has it as its winner.
          have winning : winner.mark = top := by
            refine le_antisymm ?_ (equal ▸ highest p taken)
            exact settling.highest _ (underway.waiting winner ((passed.events winner).mpr (Or.inl hw))).2
          refine Or.inr ?_
          rw [mark, winning]
          split
          · rfl
          · rename_i refused
            rcases underway.shows with same | ⟨member, above⟩
            · rw [same] at refused
              exact absurd settling.replaces refused
            · exact (settling.orderly.replaced settling.member settling.highest member
                above).resolve_right refused
      · exact Or.inl ⟨p, left, equal⟩
    · refine Or.inr ?_
      rcases passed.mark with ⟨_, mark⟩ | ⟨winner, hw, _, mark⟩
      · rw [mark, shown]
      · have below := settling.highest _ (underway.waiting winner ((passed.events winner).mpr (Or.inl hw))).2
        rw [mark, shown, Mark.not_replaces_of_le below]
        rfl

theorem Underway.act (underway : Underway start marks top delivered m i row)
    (own : ∀ e ∈ action.logged, e.taskId = i → e.taskInsertedAt = start.insertedAt ∧ e.mark ∈ marks)
    (done : m.act action = .ok m') :
    ∃ row', Underway start marks top (delivered ++ action.logged) m' i row' := by
  cases action with
  | insert now tenant events =>
    cases done
    exact ⟨row, underway.insert own⟩
  | fold tenant share limit positive now =>
    obtain ⟨⟨n, m₁⟩, folded, done⟩ := bind_ok done
    cases done
    rw [Action.logged, List.append_nil]
    exact underway.fold folded

theorem Underway.deliver (underway : Underway start marks top delivered m i row)
    (own : ∀ e ∈ actions.flatMap Action.logged, e.taskId = i →
      e.taskInsertedAt = start.insertedAt ∧ e.mark ∈ marks)
    (done : m.deliver actions = .ok m') :
    ∃ row', Underway start marks top (delivered ++ actions.flatMap Action.logged) m' i row' := by
  induction actions generalizing m row delivered with
  | nil =>
    cases done
    exact ⟨row, by simpa using underway⟩
  | cons action rest ih =>
    rw [ReadModel.deliver, List.foldlM_cons] at done
    obtain ⟨m₁, first, done⟩ := bind_ok done
    obtain ⟨row₁, underway⟩ := underway.act
      (fun e he => own e (List.mem_flatMap.mpr ⟨action, List.mem_cons_self, he⟩)) first
    obtain ⟨row', underway⟩ := ih underway (fun e he => own e (by
      obtain ⟨a, ha, logged⟩ := List.mem_flatMap.mp he
      exact List.mem_flatMap.mpr ⟨a, List.mem_cons_of_mem _ ha, logged⟩)) done
    refine ⟨row', ?_⟩
    rwa [List.flatMap_cons, ← List.append_assoc]

end

/-- The events are of the task that the row shows. -/
def OfRow (row : TaskRow) (i : TaskId) (events : List TaskEvent) : Prop :=
  ∀ e ∈ events, e.tenantId = row.tenantId ∧ e.taskId = i ∧ e.taskInsertedAt = row.insertedAt

instance : Decidable (OfRow row i events) := List.decidableBAll _ events

/-- Orderly events leave the row with their highest mark, if that may replace what it showed. -/
theorem Delivers.orderly_outcome {actions : List Action} (found : m.task? i = some row)
    (settled : m.waiting i = []) (own : OfRow row i events)
    (orderly : Mark.Orderly row.mark (events.map (·.mark)))
    (delivers : Delivers m i events actions m') :
    (∀ e ∈ events, e.mark.replaces row.mark = false) ∧ m'.shown i = some row.mark ∨
      ∃ top ∈ events, (∀ e ∈ events, e.mark ≤ top.mark) ∧ top.mark.replaces row.mark = true ∧
        m'.shown i = some top.mark := by
  have logged : ∀ e ∈ actions.flatMap Action.logged, e.taskId = i →
      e.taskInsertedAt = row.insertedAt ∧ e.mark ∈ events.map (·.mark) := by
    intro e he mine
    have member := (delivers.exactly e).mpr ⟨he, mine⟩
    exact ⟨(own e member).2.2, List.mem_map.mpr ⟨e, member, rfl⟩⟩
  have begin : ∀ top, Underway row (events.map (·.mark)) top [] m i row := by
    refine fun top => ⟨found, .refl row, Or.inl rfl, by simp [settled], ?_⟩
    rintro _ ⟨_, none, _⟩
    cases none
  by_cases some : ∃ e ∈ events, e.mark.replaces row.mark = true
  · obtain ⟨e, he, replaces⟩ := some
    have member : e.mark ∈ events.map (·.mark) := List.mem_map.mpr ⟨e, he, rfl⟩
    obtain ⟨top, htop, highest⟩ := Mark.exists_highest (List.ne_nil_of_mem member)
    obtain ⟨t, ht, rfl⟩ := List.mem_map.mp htop
    obtain ⟨row', underway⟩ := (begin t.mark).deliver logged delivers.ends
    have settling : Settling row.mark (events.map (·.mark)) t.mark :=
      ⟨orderly, htop, highest, orderly.top_replaces htop highest member replaces⟩
    have reached := underway.top settling
      ⟨t, ((delivers.exactly t).mp ht).1, ((delivers.exactly t).mp ht).2, rfl⟩
    rw [delivers.drained] at reached
    have shows : row'.mark = t.mark := reached.resolve_left (by simp)
    refine Or.inr ⟨t, ht, fun e he => highest _ (List.mem_map.mpr ⟨e, he, rfl⟩), settling.replaces, ?_⟩
    rw [shown, underway.found, Option.map_some, shows]
  · have none : ∀ e ∈ events, e.mark.replaces row.mark = false := by
      intro e he
      rw [Bool.eq_false_iff]
      exact fun replaces => some ⟨e, he, replaces⟩
    obtain ⟨row', underway⟩ := (begin row.mark).deliver logged delivers.ends
    refine Or.inl ⟨none, ?_⟩
    rcases underway.shows with same | ⟨member, replaces⟩
    · rw [shown, underway.found, Option.map_some, same]
    · obtain ⟨e, he, equal⟩ := List.mem_map.mp member
      rw [← equal, none e he] at replaces
      cases replaces

/-! ### Events in one batch -/

/-- Whatever the events, they can be delivered at once, and then their highest mark is compared with
what the row showed. -/
theorem delivers_at_once {top : TaskEvent} (found : m.task? i = some row)
    (settled : m.waiting i = []) (own : OfRow row i events) (member : top ∈ events)
    (highest : ∀ e ∈ events, e.mark ≤ top.mark) :
    ∃ actions m' row', Delivers m i events actions m' ∧ m'.task? i = some row' ∧ SameRow row row' ∧
      row'.mark = if top.mark.replaces row.mark then top.mark else row.mark := by
  have all : events.filter (·.tenantId == row.tenantId) = events := by
    refine List.filter_eq_self.mpr fun e he => ?_
    simpa using (own e he).1
  let m₁ := m.insertEvents Instant.epoch row.tenantId events
  have queued : ∀ p, p ∈ m₁.waiting i ↔ ∃ e ∈ events, p = .ofEvent e Instant.epoch := by
    intro p
    rw [mem_waiting_insertEvents, all, settled]
    constructor
    · rintro (none | ⟨e, he, _, equal⟩)
      · cases none
      · exact ⟨e, he, equal⟩
    · rintro ⟨e, he, equal⟩
      exact Or.inr ⟨e, he, (own e he).2.1, equal⟩
  have found₁ : m₁.task? i = some row := found
  obtain ⟨n, m', folded⟩ :=
    foldTasks_total roomy_epoch m₁ row.tenantId (m.share i) (m₁.pendingEvents.length + 1)
  have created : ∀ p ∈ m₁.waiting i, p.taskInsertedAt = row.insertedAt := by
    intro p hp
    obtain ⟨e, he, rfl⟩ := (queued p).mp hp
    exact (own e he).2.2
  obtain ⟨row', passed⟩ := foldTasks_passed found₁ created folded
  have drained : m'.waiting i = [] := by
    refine List.eq_nil_iff_forall_not_mem.mpr fun p hp => ?_
    obtain ⟨k, kept⟩ := foldTasks_kept passed.found folded hp
    have early := takeDue_all (Nat.le_succ _) _ kept
    have mine := (mem_waiting.mp hp).2
    rcases List.mem_append.mp (mem_takeDue.mpr (Or.inr kept)) with before | fresh
    · have old : p ∈ m.waiting i := mem_waiting.mpr ⟨⟨k, before⟩, mine⟩
      rw [settled] at old
      cases old
    · obtain ⟨e, he, same⟩ := List.mem_map.mp fresh
      cases same
      rw [all] at he
      have due : eventDue row.tenantId (m.share i) Instant.epoch
          (m.share e.taskId, .ofEvent e Instant.epoch) = true := by
        simp [eventDue, Pending.ofEvent, (own e he).1, (own e he).2.1]
      rw [due] at early
      cases early
  have done : m.deliver [.insert Instant.epoch row.tenantId events,
      .fold row.tenantId (m.share i) (m₁.pendingEvents.length + 1) (Nat.succ_pos _) Instant.epoch] =
      .ok m' := by
    change (do return (← m₁.foldTasks _ _ _ _).2) >>= pure = _
    rw [folded]
    rfl
  refine ⟨_, m', row', ⟨done, fun e => ?_, drained⟩, passed.found, passed.same, ?_⟩
  · simp only [List.flatMap_cons, List.flatMap_nil, Action.logged, List.append_nil, all]
    exact ⟨fun he => ⟨he, (own e he).2.1⟩, And.left⟩
  · have taken : ∀ p, p ∈ m₁.taking row.tenantId (m.share i) (m₁.pendingEvents.length + 1)
        Instant.epoch i ↔ ∃ e ∈ events, p = .ofEvent e Instant.epoch := by
      intro p
      rw [← queued, passed.events, drained]
      simp
    rcases passed.mark with ⟨none, _⟩ | ⟨winner, hw, above, mark⟩
    · have some := (taken _).mpr ⟨top, member, rfl⟩
      rw [none] at some
      cases some
    · obtain ⟨e, he, rfl⟩ := (taken _).mp hw
      have equal : (Pending.ofEvent e Instant.epoch).mark = top.mark :=
        le_antisymm (highest e he) (above _ ((taken _).mpr ⟨top, member, rfl⟩))
      rw [mark, equal]

theorem Delivers.append {first second : List TaskEvent} {as bs : List Action} {m₁ m₂ : ReadModel}
    (begins : Delivers m i first as m₁) (ends : Delivers m₁ i second bs m₂)
    (subset : first ⊆ second) : Delivers m i second (as ++ bs) m₂ := by
  refine ⟨?_, ?_, ends.drained⟩
  · rw [deliver, List.foldlM_append, show List.foldlM act m as = .ok m₁ from begins.ends]
    exact ends.ends
  · intro e
    rw [List.flatMap_append, List.mem_append]
    constructor
    · intro he
      obtain ⟨logged, mine⟩ := (ends.exactly e).mp he
      exact ⟨Or.inr logged, mine⟩
    · rintro ⟨early | late, mine⟩
      · exact subset ((begins.exactly e).mpr ⟨early, mine⟩)
      · exact (ends.exactly e).mpr ⟨late, mine⟩

/-- An event that neither gives way nor is of the latest attempt stays shown if a pass finds it
alone. -/
theorem disorderly_disagree (found : m.task? i = some row) (settled : m.waiting i = [])
    (own : OfRow row i events) (disorderly : ¬ Mark.Orderly row.mark (events.map (·.mark))) :
    ∃ as bs ma mb, Delivers m i events as ma ∧ Delivers m i events bs mb ∧ ma.shown i ≠ mb.shown i := by
  unfold Mark.Orderly at disorderly
  push Not at disorderly
  obtain ⟨_, ha, replaces, stays⟩ := disorderly
  obtain ⟨e, he, rfl⟩ := List.mem_map.mp ha
  obtain ⟨_, htop, above⟩ := Mark.exists_highest (List.ne_nil_of_mem ha)
  obtain ⟨top, ht, rfl⟩ := List.mem_map.mp htop
  have highest : ∀ e ∈ events, e.mark ≤ top.mark := fun e he => above _ (List.mem_map.mpr ⟨e, he, rfl⟩)
  have latest : ∀ c ∈ events.map (·.mark), c.retryCount ≤ top.mark.retryCount := by
    intro c hc
    rcases Mark.le_iff.mp (above c hc) with less | ⟨equal, _⟩
    · exact Int.le_of_lt less
    · exact Int.le_of_eq equal
  obtain ⟨apart, kept⟩ := stays top.mark htop latest
  obtain ⟨as, m₁, row₁, alone, found₁, same₁, mark₁⟩ := delivers_at_once found settled
    (fun e' he' => own e' (by rwa [List.mem_singleton.mp he'])) (List.mem_singleton_self e)
    (fun e' he' => le_of_eq (by rw [List.mem_singleton.mp he']))
  rw [if_pos replaces] at mark₁
  have own₁ : OfRow row₁ i events := by
    intro e' he'
    rw [same₁.tenant, same₁.insertedAt]
    exact own e' he'
  obtain ⟨as', ma, rowa, rest, founda, _, marka⟩ :=
    delivers_at_once found₁ alone.drained own₁ ht highest
  have refused : top.mark.replaces row₁.mark = false := by
    rw [mark₁, Bool.eq_false_iff]
    exact fun above => Nat.not_lt.mpr kept (Mark.replaces_iff.mp above).2
  rw [if_neg (Bool.not_eq_true _ ▸ refused), mark₁] at marka
  obtain ⟨bs, mb, rowb, once, foundb, _, markb⟩ := delivers_at_once found settled own ht highest
  refine ⟨as ++ as', bs, ma, mb, alone.append rest (by simpa using he), once, ?_⟩
  rw [shown, shown, founda, foundb, Option.map_some, Option.map_some, Ne, Option.some.injEq, marka,
    markb]
  intro equal
  split at equal
  · exact apart (congrArg Mark.retryCount equal)
  · rw [show e.mark = row.mark from equal] at replaces
    exact Nat.lt_irrefl _ (Mark.replaces_iff.mp replaces).2

/-! ### Convergence -/

/-- All deliveries of the events of a task end with the same attempt and status in its row if and only
if the events are orderly. -/
theorem deliveries_agree_iff (found : m.task? i = some row) (settled : m.waiting i = [])
    (own : OfRow row i events) :
    (∀ as bs ma mb, Delivers m i events as ma → Delivers m i events bs mb → ma.shown i = mb.shown i) ↔
      Mark.Orderly row.mark (events.map (·.mark)) := by
  constructor
  · intro agree
    by_contra disorderly
    obtain ⟨as, bs, ma, mb, first, second, differ⟩ := disorderly_disagree found settled own disorderly
    exact differ (agree as bs ma mb first second)
  · intro orderly as bs ma mb first second
    rcases first.orderly_outcome found settled own orderly with
        ⟨none, here⟩ | ⟨top, member, highest, replaces, here⟩ <;>
      rcases second.orderly_outcome found settled own orderly with
        ⟨none', there⟩ | ⟨top', member', highest', replaces', there⟩
    · rw [here, there]
    · rw [none top' member'] at replaces'
      cases replaces'
    · rw [none' top member] at replaces
      cases replaces
    · rw [here, there, le_antisymm (highest' top member) (highest top' member')]

def queuedRow : TaskRow := { (default : TaskRow) with id := 1 }

/-- A read model with one task, which waits. -/
def oneQueued : ReadModel := { tasks := [queuedRow] }

/-- The attempts at the task begin and the last of them ends. -/
def startedThenFinished : List TaskEvent :=
  [{ (default : TaskEvent) with taskId := 1, retryCount := 0, eventType := .started, status := .running },
   { (default : TaskEvent) with taskId := 1, retryCount := 1, eventType := .finished, status := .completed }]

theorem startedThenFinished_agree :
    oneQueued.task? 1 = some queuedRow ∧ oneQueued.waiting 1 = [] ∧
      OfRow queuedRow 1 startedThenFinished ∧
      ∀ as bs ma mb, Delivers oneQueued 1 startedThenFinished as ma →
        Delivers oneQueued 1 startedThenFinished bs mb → ma.shown 1 = mb.shown 1 := by
  have own : OfRow queuedRow 1 startedThenFinished := by decide
  refine ⟨rfl, rfl, own, ?_⟩
  exact (deliveries_agree_iff (show oneQueued.task? 1 = some queuedRow from rfl) rfl own).mpr (by decide)

/-- The first attempt at the task fails and a second one starts. -/
def failedThenStarted : List TaskEvent :=
  [{ (default : TaskEvent) with taskId := 1, retryCount := 0, eventType := .failed, status := .failed },
   { (default : TaskEvent) with taskId := 1, retryCount := 1, eventType := .started, status := .running }]

/-- The failure stays shown if a pass comes between the two events. -/
theorem failedThenStarted_diverges :
    oneQueued.task? 1 = some queuedRow ∧ oneQueued.waiting 1 = [] ∧
      OfRow queuedRow 1 failedThenStarted ∧ (∀ e ∈ failedThenStarted, 0 ≤ e.retryCount) ∧
      ∃ as bs ma mb,
        Delivers oneQueued 1 failedThenStarted as ma ∧ Delivers oneQueued 1 failedThenStarted bs mb ∧
          ma.shown 1 = some ⟨0, .failed⟩ ∧ mb.shown 1 = some ⟨1, .running⟩ := by
  refine ⟨rfl, rfl, by decide, by decide, [.insert Instant.epoch default (failedThenStarted.take 1),
      .fold default 1 1 (by decide) Instant.epoch,
      .insert Instant.epoch default (failedThenStarted.drop 1),
      .fold default 1 1 (by decide) Instant.epoch],
    [.insert Instant.epoch default failedThenStarted, .fold default 1 2 (by decide) Instant.epoch],
    _, _, ⟨rfl, ?_, rfl⟩, ⟨rfl, ?_, rfl⟩, rfl, rfl⟩
  · intro e
    change e ∈ failedThenStarted ↔ e ∈ failedThenStarted ∧ e.taskId = 1
    exact ⟨fun he => ⟨he, (by decide : ∀ e ∈ failedThenStarted, e.taskId = 1) e he⟩, And.left⟩
  · intro e
    change e ∈ failedThenStarted ↔ e ∈ failedThenStarted ∧ e.taskId = 1
    exact ⟨fun he => ⟨he, (by decide : ∀ e ∈ failedThenStarted, e.taskId = 1) e he⟩, And.left⟩

end ReadModel

end WorkflowEngine
