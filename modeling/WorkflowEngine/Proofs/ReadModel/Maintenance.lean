import Mathlib.Data.List.Sort
import WorkflowEngine.Proofs.ReadModel.Shelf

/-!
A pass of maintenance. A table has afterwards the days it had before as far as they are within the
retention window, today and tomorrow. What is reported is what has changed, and nothing is left to do.
-/

namespace WorkflowEngine

/-! ### The plan for a table -/

namespace PartitionPlan

variable {existing : List Date} {now : Instant} {retention : Nat} {d : Date}

/-- The days of a table once the plan is carried out. -/
def carriedOut (p : PartitionPlan) (existing : List Date) : List Date :=
  (p.create.foldl (fun ds d => insertDate d ds) existing).filter (!p.drop.contains ·)

/-- Days in order, each once. -/
def Ascends (l : List Date) : Prop := l.Pairwise fun a b => a.day < b.day

theorem Ascends.insertDate {l : List Date} (ascends : Ascends l) (d : Date) :
    Ascends (insertDate d l) := by
  rw [insertDate_put]
  exact Ascending.put_key_pairwise ascends

theorem Ascends.carriedOut (ascends : Ascends existing) (p : PartitionPlan) :
    Ascends (p.carriedOut existing) := by
  refine List.Pairwise.filter _ ?_
  exact List.foldlRecOn p.create _ ascends fun _ ascends d _ => Ascends.insertDate ascends d

/-- Lists in order are known by their elements. -/
theorem Ascends.eq {l l' : List Date} (ascends : Ascends l) (ascends' : Ascends l')
    (same : ∀ d, d ∈ l ↔ d ∈ l') : l = l' := by
  have unequal {l : List Date} (ascends : Ascends l) : l.Nodup :=
    ascends.imp fun less equal => by rw [equal] at less; exact Int.lt_irrefl _ less
  refine ((List.perm_ext_iff_of_nodup (unequal ascends) (unequal ascends')).mpr same).eq_of_pairwise
    (fun a b _ _ less more => ?_) ascends ascends'
  exact absurd less (Int.not_lt.mpr (Int.le_of_lt more))

section Calendar

variable (begun : Date.minDay ≤ now.date.day) (lasts : now.date.day + 1 ≤ Date.maxDay)
include begun lasts

theorem requiredDates_eq : requiredDates now = [now.date, ⟨now.date.day + 1⟩] := by
  rw [requiredDates, Date.next, Date.add?, if_pos ⟨by omega, lasts⟩]
  rfl

theorem mem_requiredDates :
    d ∈ requiredDates now ↔ d.day = now.date.day ∨ d.day = now.date.day + 1 := by
  rw [requiredDates_eq begun lasts, List.mem_cons, List.mem_singleton]
  exact or_congr ⟨congrArg Date.day, congrArg Date.mk⟩ ⟨congrArg Date.day, congrArg Date.mk⟩

omit begun in
theorem retentionCutoff_day : (retentionCutoff now retention).day =
    max (now.date.day - retention) Date.minDay := by
  rw [retentionCutoff, Date.add?]
  split
  · rename_i within
    change now.date.day + -(retention : Int) = _
    omega
  · rename_i before
    change Date.minDay = _
    omega

/-- Neither today nor tomorrow is behind the retention window. -/
theorem required_kept (retention : Nat) (required : d ∈ requiredDates now) :
    ¬ d < retentionCutoff now retention := by
  change ¬ d.day < (retentionCutoff now retention).day
  rw [retentionCutoff_day lasts]
  have near := (mem_requiredDates begun lasts).mp required
  omega

theorem mem_carriedOut : d ∈ (make existing now retention).carriedOut existing ↔
    (d ∈ existing ∧ ¬ d < retentionCutoff now retention) ∨ d ∈ requiredDates now := by
  have kept := @required_kept now d begun lasts retention
  simp only [carriedOut, make, List.mem_filter, mem_insertDates, List.contains_eq_mem, Bool.not_eq_true',
    decide_eq_false_iff_not, decide_eq_true_eq]
  tauto

/-- What is created is what is there only afterwards. -/
theorem create_eq (ascends : Ascends existing) : (make existing now retention).create =
    ((make existing now retention).carriedOut existing).filter (· ∉ existing) := by
  have ordered : Ascends (requiredDates now) := by
    rw [requiredDates_eq begun lasts]
    exact List.pairwise_pair.mpr (Int.lt_add_one_of_le (Int.le_refl now.date.day))
  refine Ascends.eq (List.Pairwise.filter _ ordered)
    (List.Pairwise.filter _ (ascends.carriedOut _)) fun d => ?_
  have there : d ∈ (make existing now retention).create ↔ d ∈ requiredDates now ∧ d ∉ existing := by
    simp [make]
  rw [there, List.mem_filter, mem_carriedOut begun lasts, decide_eq_true_eq]
  tauto

/-- What is dropped is what was there only before. -/
theorem drop_eq : (make existing now retention).drop =
    existing.filter (· ∉ (make existing now retention).carriedOut existing) := by
  refine List.filter_congr fun d member => ?_
  have kept := @required_kept now d begun lasts retention
  simp only [mem_carriedOut begun lasts, decide_eq_decide]
  tauto

theorem make_carriedOut :
    make ((make existing now retention).carriedOut existing) now retention = {} := by
  have create : ∀ d ∈ requiredDates now,
      ¬ (!((make existing now retention).carriedOut existing).contains d) = true := by
    intro d required
    simp [mem_carriedOut begun lasts, required]
  have drop : ∀ d ∈ (make existing now retention).carriedOut existing,
      ¬ decide (d < retentionCutoff now retention) = true := by
    intro d member
    rw [decide_eq_true_eq]
    exact ((mem_carriedOut begun lasts).mp member).elim And.right (required_kept begun lasts retention)
  rw [make, List.filter_eq_nil_iff.mpr create, List.filter_eq_nil_iff.mpr drop]

end Calendar

end PartitionPlan

namespace ReadModel

open PartitionPlan (Ascends)

variable {m m' : ReadModel} {now : Instant} {t t' : Table}

/-! ### A pass of maintenance -/

theorem get_set (days : TableDays) (l : List Date) :
    (days.set t l).get t' = if t' = t then l else days.get t' := by
  cases t <;> cases t' <;> rfl

/-- What is planned for a table. -/
def plan (m : ReadModel) (now : Instant) (t : Table) : PartitionPlan :=
  .make (m.days.get t) now m.retentionDays

theorem maintainTable_report : (m.maintainTable now t).1 =
    ⟨(m.plan now t).create.map t.partitionName, (m.plan now t).drop.map t.partitionName⟩ :=
  rfl

theorem maintainTable_settled (settled : m.plan now t = {}) : m.maintainTable now t = ({}, m) := by
  have same : m.days.set t (m.days.get t) = m.days := by cases t <;> rfl
  have days : (m.plan now t).carriedOut (m.days.get t) = m.days.get t := by
    simp [settled, PartitionPlan.carriedOut]
  refine Prod.ext (by rw [maintainTable_report, settled]; rfl) ?_
  have kept : { m with days := m.days.set t ((m.plan now t).carriedOut (m.days.get t)) } = m := by
    rw [days, same]
  have dropped : (PartitionPlan.make (m.days.get t) now m.retentionDays).drop = [] :=
    congrArg PartitionPlan.drop settled
  refine Eq.trans ?_ kept
  unfold maintainTable
  cases t <;> simp [dropped, dropTasks, dropDags, plan, PartitionPlan.carriedOut]

theorem maintain_days (t : Table) : (m.maintain now).2.days.get t =
    (m.plan now t).carriedOut (m.days.get t) := by
  cases t <;> rfl

theorem maintain_report : (m.maintain now).1 =
    ⟨Table.all.flatMap fun t => (m.plan now t).create.map t.partitionName,
      Table.all.flatMap fun t => (m.plan now t).drop.map t.partitionName⟩ := by
  have dags : (m.maintainTable now .tasks).2.plan now .dags = m.plan now .dags := rfl
  have runs : ((m.maintainTable now .tasks).2.maintainTable now .dags).2.plan now .runs =
    m.plan now .runs := rfl
  simp [maintain, Table.all, maintainTable_report, dags, runs]

theorem maintain_settled (settled : ∀ t, m.plan now t = {}) : m.maintain now = ({}, m) := by
  simp [maintain, Table.all, maintainTable_settled (settled _)]

/-- What a pass of maintenance comes to: the days a table has, what is reported, and that nothing is
left to do. -/
structure Rotates (m : ReadModel) (now : Instant) (retention : Nat) (done : Maintenance)
    (m' : ReadModel) : Prop where
  kept : ∀ t d, Date.minDay ≤ d.day → (d ∈ m'.days.get t ↔
    (d ∈ m.days.get t ∧ now.date.day - retention ≤ d.day) ∨
      d.day = now.date.day ∨ d.day = now.date.day + 1)
  ascends : ∀ t, Ascends (m'.days.get t)
  created : done.created = Table.all.flatMap fun t =>
    ((m'.days.get t).filter (· ∉ m.days.get t)).map t.partitionName
  dropped : done.dropped = Table.all.flatMap fun t =>
    ((m.days.get t).filter (· ∉ m'.days.get t)).map t.partitionName
  settled : m'.maintain now = ({}, m')

theorem maintain_rotates (ascends : ∀ t, Ascends (m.days.get t)) (begun : Date.minDay ≤ now.date.day)
    (lasts : now.date.day + 1 ≤ Date.maxDay) :
    m.Rotates now m.retentionDays (m.maintain now).1 (m.maintain now).2 := by
  constructor
  · intro t d valid
    rw [maintain_days, plan, PartitionPlan.mem_carriedOut begun lasts,
      PartitionPlan.mem_requiredDates begun lasts]
    refine or_congr_left (and_congr_right fun _ => ?_)
    change ¬ d.day < (retentionCutoff now m.retentionDays).day ↔ _
    rw [PartitionPlan.retentionCutoff_day lasts]
    omega
  · intro t
    rw [maintain_days]
    exact (ascends t).carriedOut _
  · simp only [maintain_report, maintain_days, plan, ← PartitionPlan.create_eq begun lasts (ascends _)]
  · simp only [maintain_report, maintain_days, plan, ← PartitionPlan.drop_eq begun lasts]
  · refine maintain_settled fun t => ?_
    rw [plan, maintain_days]
    exact PartitionPlan.make_carriedOut begun lasts

end ReadModel

end WorkflowEngine
