import Mathlib.Data.List.Forall2
import Mathlib.Data.List.Perm.Subperm
import WorkflowEngine.Proofs.ReadModel.Operation

/-!
The status that the tasks of a run give it. It reads of them only how many have reached each rank, so that
it rises with each of them, does not heed their order, nor a task that is still queued: rows which are
added do not change it, and a pass over the events only raises it.
-/

namespace WorkflowEngine

/-! ### How many have reached a rank -/

/-- Each status has risen or stayed. -/
abbrev Risen (before after : List Status) : Prop :=
  List.Forall₂ (fun s t : Status => s.rank ≤ t.rank) before after

/-- How many of the statuses have reached the rank. -/
def Status.reached (rank : Nat) (l : List Status) : Nat := l.countP (rank ≤ ·.rank)

theorem Status.isTerminal_iff {s : Status} : s.isTerminal = true ↔ 2 ≤ s.rank := by
  cases s <;> simp [Status.isTerminal, Status.rank]

section Reached

variable {before after l : List Status} {rank : Nat}

theorem Risen.refl (l : List Status) : Risen l l := List.forall₂_same.mpr fun _ _ => Nat.le_refl _

theorem Risen.trans {first second third : List Status} (one : Risen first second)
    (two : Risen second third) : Risen first third := by
  induction one generalizing third with
  | nil => exact two
  | cons step _ ih =>
    cases two with
    | cons step' rest' => exact .cons (Nat.le_trans step step') (ih rest')

theorem Status.reached_pos_iff : 0 < reached rank l ↔ ∃ s ∈ l, rank ≤ s.rank := by
  simp [reached, List.countP_pos_iff]

theorem Status.reached_eq_zero_iff : reached rank l = 0 ↔ ∀ s ∈ l, s.rank < rank := by
  simp [reached, List.countP_eq_zero]

/-- Nothing goes beyond failed. -/
theorem Status.reached_five : reached 5 l = 0 :=
  reached_eq_zero_iff.mpr fun s _ => by cases s <;> decide

/-- To have reached a rank is to have reached those below it. -/
theorem Status.reached_antitone {low high : Nat} (le : low ≤ high) : reached high l ≤ reached low l :=
  List.countP_mono_left fun _ _ high => decide_eq_true (Nat.le_trans le (of_decide_eq_true high))

theorem Status.reached_le_length : reached rank l ≤ l.length := List.countP_le_length

theorem Status.reached_perm (perm : before.Perm after) (rank : Nat) :
    reached rank before = reached rank after := perm.countP_eq _

theorem Status.reached_append (rank : Nat) (before more : List Status) :
    reached rank (before ++ more) = reached rank before + reached rank more := List.countP_append

/-- Statuses that are queued have reached no rank but theirs. -/
theorem Status.reached_queued (moved : 1 ≤ rank) (k : Nat) :
    reached rank (List.replicate k .queued) = 0 :=
  reached_eq_zero_iff.mpr fun _ member => (List.mem_replicate.mp member).2 ▸ moved

theorem Risen.reached_le (risen : Risen before after) (rank : Nat) :
    Status.reached rank before ≤ Status.reached rank after := by
  induction risen with
  | nil => exact Nat.le_refl _
  | @cons s t _ _ step _ ih =>
    have one : (if rank ≤ s.rank then 1 else 0) ≤ if rank ≤ t.rank then 1 else 0 := by
      split_ifs <;> omega
    simpa [Status.reached, List.countP_cons] using Nat.add_le_add ih one

/-- What some of the statuses have reached and nothing beyond it is the highest of them. -/
theorem Status.highest_of_reached {s : Status} (attained : 0 < reached s.rank l)
    (beyond : reached (s.rank + 1) l = 0) : s ∈ l ∧ ∀ t ∈ l, t.rank ≤ s.rank := by
  have highest : ∀ t ∈ l, t.rank ≤ s.rank := fun t member =>
    Nat.le_of_lt_succ (reached_eq_zero_iff.mp beyond t member)
  obtain ⟨t, member, le⟩ := reached_pos_iff.mp attained
  have same : t = s := rank_injective (Nat.le_antisymm (highest t member) le)
  exact ⟨same ▸ member, highest⟩

theorem Status.contains_iff_reached {s : Status} (beyond : reached (s.rank + 1) l = 0) :
    l.contains s = true ↔ 0 < reached s.rank l := by
  rw [List.contains_iff_mem]
  exact ⟨fun member => reached_pos_iff.mpr ⟨s, member, Nat.le_refl _⟩,
    fun attained => (highest_of_reached attained beyond).1⟩

end Reached

/-! ### The fold of statuses -/

section Fold

variable {before after l : List Status} {total : Nat}

/-- The fold by the numbers of the statuses that have reached each rank. -/
theorem foldDagStatus_eq (total : Nat) (l : List Status) : foldDagStatus total l =
    if Status.reached 1 l = 0 then .queued
    else if Status.reached 2 l < max total 1 then .running
    else if 0 < Status.reached 4 l then .failed
    else if 0 < Status.reached 3 l then .cancelled
    else .completed := by
  have still : (l.all (· == .queued)) = true ↔ Status.reached 1 l = 0 := by
    rw [List.all_eq_true, Status.reached_eq_zero_iff]
    exact forall₂_congr fun s _ => by cases s <;> decide
  have ended : (l.filter (·.isTerminal)).length = Status.reached 2 l := by
    rw [Status.reached, ← List.countP_eq_length_filter]
    exact List.countP_congr fun s _ => by rw [Status.isTerminal_iff, decide_eq_true_eq]
  have failed : l.contains .failed = true ↔ 0 < Status.reached 4 l :=
    Status.contains_iff_reached Status.reached_five
  rw [foldDagStatus, if_congr still rfl rfl, ended, if_congr failed rfl rfl]
  -- Nothing has failed where it is asked what is cancelled.
  by_cases any : 0 < Status.reached 4 l
  · rw [if_pos any, if_pos any]
  have cancelled : l.contains .cancelled = true ↔ 0 < Status.reached 3 l :=
    Status.contains_iff_reached (Nat.eq_zero_of_not_pos any)
  rw [if_congr cancelled rfl rfl]

theorem foldDagStatus_rank_le (counts : ∀ rank, Status.reached rank before ≤ Status.reached rank after) :
    (foldDagStatus total before).rank ≤ (foldDagStatus total after).rank := by
  have moved := counts 1
  have ended := counts 2
  have cancelled := counts 3
  have failed := counts 4
  rw [foldDagStatus_eq, foldDagStatus_eq]
  split_ifs <;> first | decide | omega

theorem foldDagStatus_congr
    (counts : ∀ rank, 1 ≤ rank → Status.reached rank before = Status.reached rank after) :
    foldDagStatus total before = foldDagStatus total after := by
  rw [foldDagStatus_eq, foldDagStatus_eq, counts 1 (by decide), counts 2 (by decide),
    counts 3 (by decide), counts 4 (by decide)]

theorem foldDagStatus_queued (still : ∀ s ∈ after, s = .queued) :
    foldDagStatus total after = .queued :=
  if_pos (by simpa using still)

/-- The status of a run rises with those of its tasks. -/
theorem foldDagStatus_mono (risen : Risen before after) :
    (foldDagStatus total before).rank ≤ (foldDagStatus total after).rank :=
  foldDagStatus_rank_le risen.reached_le

/-- Tasks that are still queued do not count, wherever they stand. -/
theorem foldDagStatus_perm_queued {k : Nat} (more : after.Perm (before ++ List.replicate k .queued)) :
    foldDagStatus total after = foldDagStatus total before := by
  refine foldDagStatus_congr fun rank moved => ?_
  calc Status.reached rank after
      = Status.reached rank (before ++ List.replicate k .queued) := Status.reached_perm more rank
    _ = Status.reached rank before + Status.reached rank (List.replicate k .queued) :=
        Status.reached_append rank before _
    _ = Status.reached rank before := by rw [Status.reached_queued moved, Nat.add_zero]

theorem foldDagStatus_insert (first rest : List Status) :
    foldDagStatus total (first ++ .queued :: rest) = foldDagStatus total (first ++ rest) :=
  foldDagStatus_perm_queued (k := 1) (List.perm_middle.trans (List.perm_append_singleton _ _).symm)

theorem foldDagStatus_isTerminal :
    (foldDagStatus total l).isTerminal = true ↔ max total 1 ≤ Status.reached 2 l := by
  have moved : Status.reached 2 l ≤ Status.reached 1 l := Status.reached_antitone (by decide)
  rw [foldDagStatus_eq]
  split_ifs
  · exact iff_of_false Bool.false_ne_true (by omega)
  · exact iff_of_false Bool.false_ne_true (by omega)
  all_goals exact iff_of_true rfl (by omega)

/-- Once enough have ended it is the worst of them. -/
theorem foldDagStatus_highest (ended : max total 1 ≤ Status.reached 2 l) :
    foldDagStatus total l ∈ l ∧ ∀ s ∈ l, s.rank ≤ (foldDagStatus total l).rank := by
  have moved : Status.reached 2 l ≤ Status.reached 1 l := Status.reached_antitone (by decide)
  rw [foldDagStatus_eq, if_neg (by omega), if_neg (by omega)]
  split_ifs with failed cancelled
  · exact Status.highest_of_reached failed Status.reached_five
  · exact Status.highest_of_reached cancelled (Nat.eq_zero_of_not_pos failed)
  · exact Status.highest_of_reached (s := .completed) (by simp only [Status.rank]; omega)
      (Nat.eq_zero_of_not_pos cancelled)

/-- Of no more tasks than the total enough have ended when they are all there and have all ended. -/
theorem Status.reached_total_iff (expected : 1 ≤ total) (fits : l.length ≤ total) :
    max total 1 ≤ reached 2 l ↔ l.length = total ∧ ∀ s ∈ l, s.isTerminal = true := by
  rw [Nat.max_eq_left expected]
  constructor
  · intro ended
    have full : l.length = total := Nat.le_antisymm fits (Nat.le_trans ended reached_le_length)
    have all : reached 2 l = l.length := Nat.le_antisymm reached_le_length (full ▸ ended)
    refine ⟨full, fun s member => isTerminal_iff.mpr ?_⟩
    exact of_decide_eq_true (List.countP_eq_length.mp all s member)
  · rintro ⟨full, all⟩
    rw [← full]
    refine Nat.le_of_eq (Eq.symm (List.countP_eq_length.mpr fun s member => ?_))
    exact decide_eq_true (isTerminal_iff.mp (all s member))

/-- One list of statuses is made from another by putting it in another order, by raising statuses and
by adding some. -/
inductive Grown : List Status → List Status → Prop where
  | ordered {before after : List Status} (perm : before.Perm after) : Grown before after
  | raised {before after : List Status} (risen : Risen before after) : Grown before after
  | added (l more : List Status) : Grown l (l ++ more)
  | trans {first second third : List Status} (one : Grown first second) (two : Grown second third) :
    Grown first third

theorem Grown.reached_le (grown : Grown before after) (rank : Nat) :
    Status.reached rank before ≤ Status.reached rank after := by
  induction grown with
  | ordered perm => exact Nat.le_of_eq (Status.reached_perm perm rank)
  | raised risen => exact risen.reached_le rank
  | added l more => exact Status.reached_append rank l more ▸ Nat.le_add_right _ _
  | trans _ _ one two => exact Nat.le_trans one two

/-- The status of a run does not fall while its tasks change their order, rise and become more, and the
ones that are queued do not change it. It is terminal just when all of them are there and have ended,
and then it is the highest of theirs. -/
theorem foldDagStatus_monotone (total : Nat) :
    (∀ before after, Grown before after →
      (foldDagStatus total before).rank ≤ (foldDagStatus total after).rank) ∧
    (∀ before after k, after.Perm (before ++ List.replicate k .queued) →
      foldDagStatus total after = foldDagStatus total before) ∧
    ∀ l : List Status, 1 ≤ total → l.length ≤ total →
      ((foldDagStatus total l).isTerminal = true ↔
        l.length = total ∧ ∀ s ∈ l, s.isTerminal = true) ∧
      ((foldDagStatus total l).isTerminal = true →
        foldDagStatus total l ∈ l ∧ ∀ s ∈ l, s.rank ≤ (foldDagStatus total l).rank) := by
  refine ⟨fun before after grown => foldDagStatus_rank_le grown.reached_le,
    fun before after k more => foldDagStatus_perm_queued more, fun l expected fits => ⟨?_, ?_⟩⟩
  · rw [foldDagStatus_isTerminal, Status.reached_total_iff expected fits]
  · exact fun ended => foldDagStatus_highest (foldDagStatus_isTerminal.mp ended)

/-- Three tasks, one of which is cancelled while another one starts and fails. -/
theorem threeTasks_monotone :
    (foldDagStatus 3 [.queued, .cancelled, .completed]).rank ≤
        (foldDagStatus 3 [.completed, .failed, .cancelled]).rank ∧
      foldDagStatus 3 [.queued, .completed, .queued] = foldDagStatus 3 [.completed] ∧
      foldDagStatus 3 [.completed, .failed, .cancelled] = .failed ∧
      (foldDagStatus 3 [.completed, .failed, .cancelled] ∈ [.completed, .failed, .cancelled] ∧
        ∀ s ∈ [Status.completed, .failed, .cancelled], s.rank ≤
          (foldDagStatus 3 [.completed, .failed, .cancelled]).rank) := by
  obtain ⟨rises, still, ends⟩ := foldDagStatus_monotone 3
  have risen : Risen [.queued, .cancelled, .completed] [.failed, .cancelled, .completed] := by
    simp [Risen, Status.rank]
  have perm : List.Perm [Status.failed, .cancelled, .completed] [.completed, .failed, .cancelled] := by
    decide
  exact ⟨rises _ _ (.trans (.raised risen) (.ordered perm)), still _ _ 2 (by decide), rfl,
    (ends _ (by decide) (by decide)).2 rfl⟩

end Fold

namespace ReadModel

variable {m m' : ReadModel} {i : DagId}

/-! ### The rows of the tasks of a run -/

theorem dagStatuses_congr (tasks : m'.tasks = m.tasks) : m'.dagStatuses i = m.dagStatuses i := by
  rw [dagStatuses, dagStatuses, tasks]

/-- Rows that are written over in their places, and stay with their runs. -/
theorem dagStatuses_map {g : TaskRow → TaskRow} (rows : m'.tasks = m.tasks.map g)
    (same : ∀ r ∈ m.tasks, (g r).dagId = r.dagId) :
    m'.dagStatuses i = (m.tasks.filter (·.dagId == some i)).map fun r => (g r).status := by
  rw [dagStatuses, rows, List.filter_map, List.map_map]
  congr 1
  exact List.filter_congr fun r member => by rw [Function.comp_apply, same r member]

/-- A candidate is refused, or it is written over the row of its task and tells the run of it. -/
theorem applyFolded_cases (m : ReadModel) (f : Folded) : m.applyFolded f = (none, m) ∨
    ∃ target, m.task? f.taskId = some target ∧ target.status.rank ≤ f.status.rank ∧
      (m.applyFolded f).1 = target.dagId ∧
      (m.applyFolded f).2.tasks =
        m.tasks.map fun r => if r.id == target.id then applyTo target f else r := by
  cases accepted : m.target? f with
  | none =>
    refine Or.inl ?_
    rw [applyFolded, accepted]
  | some target =>
    obtain ⟨found, may⟩ := Option.filter_eq_some_iff.mp accepted
    have rises : target.status.rank ≤ f.status.rank := by
      rw [shouldApply, Bool.and_eq_true, Status.outranks, decide_eq_true_eq, decide_eq_true_eq] at may
      exact Nat.le_of_lt may.2
    refine Or.inr ⟨target, found, rises, ?_⟩
    rw [applyFolded, accepted]
    exact ⟨rfl, rfl⟩

theorem applyFolded_statuses (ordered : m.Ordered) (f : Folded) :
    Risen (m.dagStatuses i) ((m.applyFolded f).2.dagStatuses i) ∧
      ((m.applyFolded f).2.dagStatuses i = m.dagStatuses i ∨ (m.applyFolded f).1 = some i) := by
  rcases applyFolded_cases m f with refused | ⟨target, found, rises, told, rows⟩
  · rw [refused]
    exact ⟨.refl _, Or.inl rfl⟩
  -- Only one row has the id, so that no other row is written over.
  have only : ∀ r ∈ m.tasks, r.id = target.id → r = target := by
    intro r member same
    have twice := task?_of_mem ordered member
    rw [same, task?_id found, found] at twice
    exact (Option.some.inj twice).symm
  have sameRun : ∀ r ∈ m.tasks,
      (if r.id == target.id then applyTo target f else r).dagId = r.dagId := by
    intro r member
    split
    · rename_i same
      rw [only r member (eq_of_beq same)]
      rfl
    · rfl
  rw [dagStatuses_map rows sameRun, told]
  refine ⟨?_, ?_⟩
  · rw [dagStatuses, Risen, List.forall₂_map_left_iff, List.forall₂_map_right_iff, List.forall₂_same]
    intro r member
    split
    · rename_i same
      rw [only r (List.mem_of_mem_filter member) (eq_of_beq same)]
      exact rises
    · exact Nat.le_refl _
  · by_cases own : target.dagId = some i
    · exact Or.inr own
    · refine Or.inl (List.map_congr_left fun r member => ?_)
      rw [if_neg]
      intro same
      obtain ⟨member, mine⟩ := List.mem_filter.mp member
      rw [only r member (eq_of_beq same)] at mine
      exact own (eq_of_beq mine)

theorem applyFolded_ordered (ordered : m.Ordered) (f : Folded) : (m.applyFolded f).2.Ordered := by
  have ids := @applyAll_ids m [f]
  rw [Ordered, ← List.pairwise_map (R := (· < ·))] at ordered ⊢
  exact ids ▸ ordered

/-- A run whose tasks have changed is told, and their statuses have only risen. -/
theorem applyAll_statuses (ordered : m.Ordered) (fs : List Folded) :
    Risen (m.dagStatuses i) ((m.applyAll fs).2.dagStatuses i) ∧
      ((m.applyAll fs).2.dagStatuses i = m.dagStatuses i ∨ i ∈ (m.applyAll fs).1) := by
  induction fs generalizing m with
  | nil => exact ⟨.refl _, Or.inl rfl⟩
  | cons f rest ih =>
    obtain ⟨risen, same⟩ := applyFolded_statuses (i := i) ordered f
    obtain ⟨risen', same'⟩ := ih (applyFolded_ordered ordered f)
    refine ⟨risen.trans risen', ?_⟩
    have later : i ∈ ((m.applyFolded f).2.applyAll rest).1 → i ∈ (m.applyAll (f :: rest)).1 := by
      intro member
      simp only [applyAll]
      split
      · rename_i id _
        by_cases own : i = id
        · exact own ▸ Ascending.mem_put_self
        · refine Ascending.mem_put_of_mem member ?_
          simp only [decide_eq_true_eq]
          exact Int.lt_or_gt_of_ne (Ne.symm own)
      · exact member
    rcases same' with unchanged' | told'
    · rcases same with unchanged | told
      · exact Or.inl (unchanged'.trans unchanged)
      · simp only [applyAll, told]
        exact Or.inr Ascending.mem_put_self
    · exact Or.inr (later told')

/-- A row that is added does not change the status that its run has by its tasks. -/
theorem addTask_status (m : ReadModel) (t : Task) (total : Nat) :
    foldDagStatus total ((m.addTask t).dagStatuses i) = foldDagStatus total (m.dagStatuses i) := by
  unfold addTask
  split
  · rfl
  rename_i missing
  rw [Option.not_isSome_iff_eq_none, task?, List.find?_eq_none] at missing
  obtain ⟨first, rest, split, put⟩ := @Ascending.put_key_split _ (.ofTask t) _ TaskRow.id
    fun r member same => missing r member (beq_iff_eq.mpr same)
  simp only [dagStatuses]
  rw [put, split, List.filter_append, List.filter_append, List.map_append, List.map_append]
  rw [List.filter_cons]
  split
  · exact foldDagStatus_insert _ _
  · rfl

theorem addTasks_status (m : ReadModel) (ts : List Task) (total : Nat) :
    foldDagStatus total ((ts.foldl addTask m).dagStatuses i) = foldDagStatus total (m.dagStatuses i) := by
  induction ts generalizing m with
  | nil => rfl
  | cons t rest ih => exact (ih (m.addTask t)).trans (addTask_status m t total)

/-- As long as no row of the run is dropped, its tasks are the same. -/
theorem dropped_statuses (ordered : m.Ordered) (fewer : m'.tasks.Sublist m.tasks)
    (kept : ∀ r ∈ m.tasks, r.dagId = some i → (m'.task? r.id).isSome) :
    m'.dagStatuses i = m.dagStatuses i := by
  have rows : m'.tasks.filter (·.dagId == some i) = m.tasks.filter (·.dagId == some i) := by
    refine (fewer.filter _).eq_of_length_le ?_
    have distinct : (m.tasks.filter (·.dagId == some i)).Nodup :=
      (List.Pairwise.imp (fun less same => Int.ne_of_lt less (congrArg _ same)) ordered).filter _
    refine (distinct.subperm fun r member => ?_).length_le
    obtain ⟨listed, own⟩ := List.mem_filter.mp member
    obtain ⟨r', found⟩ := Option.isSome_iff_exists.mp (kept r listed (eq_of_beq own))
    have before := task?_sublist ordered fewer found
    rw [task?_of_mem ordered listed] at before
    cases before
    exact List.mem_filter.mpr ⟨List.mem_of_find?_eq_some found, own⟩
  rw [dagStatuses, dagStatuses, rows]

end ReadModel

end WorkflowEngine
