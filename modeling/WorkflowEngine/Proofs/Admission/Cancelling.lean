import Mathlib.Data.List.Perm.Basic
import WorkflowEngine.Proofs.Admission.RoundRobin

/-!
Limits for each key. A policy that cancels takes the first of every key, in one order or the other, and
leaves the rest: the newest stay, or the oldest of those that wait join the ones let in before. What it
decides is read off the two parts.
-/

namespace WorkflowEngine.Admission

variable {c w : Candidate} {cs pool : List Candidate} {key : String}

/-! ### The first of each key -/

/-- Of each key the first are taken, as many as there is room for, and the others are left. -/
structure Cut (pool : List Candidate) (first : Candidate → Candidate → Prop) (room : String → Int)
    (taken left : List Candidate) : Prop where
  whole : (taken ++ left).Perm pool
  count : ∀ key, ((group key taken).length : Int) = min (max 0 (room key)) (group key pool).length
  first : ∀ c ∈ taken, ∀ w ∈ left, w.key = c.key → first c w

/-- What is put together key by key is found again by its key. -/
theorem group_flatMap {ks : List String} {f : String → List Candidate} (once : ks.Nodup)
    (own : ∀ key, ∀ c ∈ f key, c.key = key) :
    group key (ks.flatMap f) = if key ∈ ks then f key else [] := by
  induction ks with
  | nil => rfl
  | cons one rest ih =>
    obtain ⟨fresh, once⟩ := List.nodup_cons.mp once
    have split : group key ((one :: rest).flatMap f) =
        (f one).filter (·.key == key) ++ group key (rest.flatMap f) := List.filter_append ..
    rw [split, ih once]
    by_cases same : key = one
    · subst same
      have all : (f key).filter (·.key == key) = f key :=
        List.filter_eq_self.mpr fun c hc => beq_iff_eq.mpr (own key c hc)
      rw [all, if_neg fresh, if_pos List.mem_cons_self, List.append_nil]
    · have none : (f one).filter (·.key == key) = [] :=
        List.filter_eq_nil_iff.mpr fun c hc other =>
          same ((beq_iff_eq.mp other).symm.trans (own one c hc))
      rw [none, List.nil_append]
      simp only [List.mem_cons, same, false_or]

theorem cut_byKey {ks : List String} (ranked : String → List Candidate) {room : String → Int}
    {first : Candidate → Candidate → Prop} (once : ks.Nodup) (distinct : pool.Nodup)
    (listed : ∀ c ∈ pool, c.key ∈ ks) (each : ∀ key, (ranked key).Perm (group key pool))
    (ordered : ∀ key, (ranked key).Pairwise first) :
    Cut pool first room (ks.flatMap fun key => (ranked key).take (room key).toNat)
      (ks.flatMap fun key => (ranked key).drop (room key).toNat) := by
  have own : ∀ key, ∀ c ∈ ranked key, c.key = key := fun key c hc =>
    (mem_group.mp ((each key).mem_iff.mp hc)).2
  refine ⟨?_, ?_, ?_⟩
  · refine (List.flatMap_append_perm ks _ _).trans ?_
    simp only [List.take_append_drop]
    exact byKey_perm once distinct listed each
  · intro key
    rw [group_flatMap once fun key c hc => own key c (List.mem_of_mem_take hc), ← (each key).length_eq]
    split
    · rw [List.length_take]
      omega
    · rename_i unknown
      have none : ranked key = [] := List.eq_nil_iff_forall_not_mem.mpr fun c hc => by
        obtain ⟨inPool, rfl⟩ := mem_group.mp ((each key).mem_iff.mp hc)
        exact unknown (listed c inPool)
      rw [none, List.length_nil]
      omega
  · intro c hc w hw same
    obtain ⟨key, -, taken⟩ := List.mem_flatMap.mp hc
    obtain ⟨key', -, left⟩ := List.mem_flatMap.mp hw
    rw [own key' w (List.mem_of_mem_drop left), own key c (List.mem_of_mem_take taken)] at same
    subst same
    have sorted := ordered key'
    rw [← List.take_append_drop (room key').toNat (ranked key')] at sorted
    exact (List.pairwise_append.mp sorted).2.2 c taken w left

/-! ### Newest and oldest -/

def Newer (c w : Candidate) : Prop := w.sortId < c.sortId

def Older (c w : Candidate) : Prop := c.sortId < w.sortId

theorem sortId_ne {ranked : List Candidate} (ages : (cs.map (·.sortId)).Nodup) (perm : ranked.Perm cs) :
    ranked.Pairwise fun c w => c.sortId ≠ w.sortId :=
  List.pairwise_map.mp ((perm.map _).nodup_iff.mpr ages)

theorem newestFirst_newer (ages : (cs.map (·.sortId)).Nodup) : (newestFirst cs).Pairwise Newer := by
  have sorted : (newestFirst cs).Pairwise fun c w => decide (w.sortId ≤ c.sortId) = true :=
    List.pairwise_mergeSort (by simpa using fun a b c ab bc => Int.le_trans bc ab)
      (by simpa using fun a b => Int.le_total _ _) cs
  refine (sorted.and (sortId_ne ages (List.mergeSort_perm _ _))).imp fun both => ?_
  exact lt_of_le_of_ne (of_decide_eq_true both.1) (Ne.symm both.2)

theorem oldestFirst_older (ages : (cs.map (·.sortId)).Nodup) : (oldestFirst cs).Pairwise Older := by
  have sorted : (oldestFirst cs).Pairwise fun c w => decide (c.sortId ≤ w.sortId) = true :=
    List.pairwise_mergeSort (by simpa using fun a b c => Int.le_trans)
      (by simpa using fun a b => Int.le_total _ _) cs
  refine (sorted.and (sortId_ne ages (List.mergeSort_perm _ _))).imp fun both => ?_
  exact lt_of_le_of_ne (of_decide_eq_true both.1) both.2

/-! ### What is decided -/

/-- The decisions let in some candidates and cancel others, and no attempt is decided about twice. -/
structure Decides (ds : List Decision) (joining leaving : List Candidate) : Prop where
  exactly : ds.Perm (joining.map Candidate.letIn ++ leaving.map Candidate.cancel)
  once : (ds.map (·.task)).Nodup

/-- The attempts decided about are those of the candidates. -/
theorem Decides.of_perm {ds : List Decision} {joining leaving : List Candidate}
    (exactly : ds.Perm (joining.map Candidate.letIn ++ leaving.map Candidate.cancel))
    (tasks : ((joining ++ leaving).map (·.task)).Nodup) : Decides ds joining leaving := by
  refine ⟨exactly, (exactly.map _).nodup_iff.mpr ?_⟩
  simpa only [List.map_append, List.map_map, Function.comp_def, Candidate.letIn, Candidate.cancel]
    using tasks

/-- Of each key the newest stay, up to the limit; those of them that wait are let in, and all others
are cancelled. -/
theorem cancelInProgress_cut (limit : Int) (ages : (cs.map (·.sortId)).Nodup)
    (tasks : (cs.map (·.task)).Nodup) :
    ∃ stay leave, Cut cs Newer (fun _ => limit) stay leave ∧
      Decides (evaluate .cancelInProgress limit cs) (stay.filter (!·.filled)) leave := by
  have cut : Cut cs Newer (fun _ => limit) _ _ :=
    cut_byKey (fun key => newestFirst (group key cs)) keys_nodup ages.of_map
      (fun c hc => mem_keys.mpr ⟨c, hc, rfl⟩) (fun key => List.mergeSort_perm _ _)
      (fun key => newestFirst_newer ((List.filter_sublist.map _).nodup ages))
  refine ⟨_, _, cut, .of_perm ?_ ?_⟩
  · have parts := List.flatMap_append_perm (keys cs)
      (fun key => (((newestFirst (group key cs)).take limit.toNat).filter (!·.filled)).map Candidate.letIn)
      (fun key => ((newestFirst (group key cs)).drop limit.toNat).map Candidate.cancel)
    rw [List.filter_flatMap, List.map_flatMap, List.map_flatMap]
    exact parts.symm
  · have whole := (cut.whole.map (·.task)).nodup_iff.mpr tasks
    exact (((List.filter_sublist.append_right _)).map _).nodup whole

/-- Of each key the oldest that wait are let in, as far as the filled places leave room, and the others
that wait are cancelled. -/
theorem cancelNewest_cut (limit : Int) (ages : (cs.map (·.sortId)).Nodup)
    (tasks : (cs.map (·.task)).Nodup) :
    ∃ join leave, Cut (cs.filter (!·.filled)) Older
        (fun key => limit - (group key (cs.filter (·.filled))).length) join leave ∧
      Decides (evaluate .cancelNewest limit cs) join leave := by
  have cut : Cut (cs.filter (!·.filled)) Older
      (fun key => limit - (group key (cs.filter (·.filled))).length) _ _ :=
    cut_byKey (fun key => oldestFirst (group key (cs.filter (!·.filled)))) keys_nodup
      (ages.of_map.filter _) (fun c hc => mem_keys.mpr ⟨c, List.mem_of_mem_filter hc, rfl⟩)
      (fun key => List.mergeSort_perm _ _) fun key =>
        oldestFirst_older (((List.filter_sublist.trans List.filter_sublist).map _).nodup ages)
  refine ⟨_, _, cut, .of_perm ?_ ?_⟩
  · have parts := List.flatMap_append_perm (keys cs)
      (fun key => ((oldestFirst (group key (cs.filter (!·.filled)))).take
        (limit - (group key (cs.filter (·.filled))).length).toNat).map Candidate.letIn)
      (fun key => ((oldestFirst (group key (cs.filter (!·.filled)))).drop
        (limit - (group key (cs.filter (·.filled))).length).toNat).map Candidate.cancel)
    rw [List.map_flatMap, List.map_flatMap]
    refine (List.Perm.of_eq ?_).trans parts.symm
    simp only [evaluate, cancelNewest, keepOldest, group_filter, Int.toNat_sub']
  · have whole := (cut.whole.map (·.task)).nodup_iff.mpr
    exact whole ((List.filter_sublist.map _).nodup tasks)

/-- What the policies that cancel come to, for any limit. One that keeps the oldest decides nothing
about a place that is filled. -/
theorem cancelling_exact (limit : Int) (cs : List Candidate) (ages : (cs.map (·.sortId)).Nodup)
    (tasks : (cs.map (·.task)).Nodup) :
    (∃ stay leave, Cut cs Newer (fun _ => limit) stay leave ∧
      Decides (evaluate .cancelInProgress limit cs) (stay.filter (!·.filled)) leave) ∧
    (∃ join leave, Cut (cs.filter (!·.filled)) Older
        (fun key => limit - (group key (cs.filter (·.filled))).length) join leave ∧
      Decides (evaluate .cancelNewest limit cs) join leave) ∧
    ∀ c ∈ cs, c.filled = true → ∀ d ∈ evaluate .cancelNewest limit cs, d.task ≠ c.task := by
  obtain ⟨join, leave, cut, decides⟩ := cancelNewest_cut limit ages tasks
  refine ⟨cancelInProgress_cut limit ages tasks, ⟨join, leave, cut, decides⟩, ?_⟩
  intro c hc filled d hd same
  have about : ∃ w ∈ join ++ leave, d.task = w.task := by
    rcases List.mem_append.mp (decides.exactly.mem_iff.mp hd) with joins | leaves
    · obtain ⟨w, hw, rfl⟩ := List.mem_map.mp joins
      exact ⟨w, List.mem_append_left _ hw, rfl⟩
    · obtain ⟨w, hw, rfl⟩ := List.mem_map.mp leaves
      exact ⟨w, List.mem_append_right _ hw, rfl⟩
  obtain ⟨w, hw, task⟩ := about
  obtain ⟨listed, waits⟩ := List.mem_filter.mp (cut.whole.mem_iff.mp hw)
  have one := List.inj_on_of_nodup_map tasks listed hc (task.symm.trans same)
  rw [one, filled] at waits
  cases waits

/-- The mail of the first user that was let in gives way to the two younger ones, or keeps the youngest
of them out. -/
theorem crowd_cancelling :
    evaluate .cancelInProgress 2 crowd =
      [⟨⟨3, 0⟩, "mail", .queued⟩, ⟨⟨2, 0⟩, "mail", .queued⟩, ⟨⟨1, 0⟩, "mail", .cancelled⟩,
       ⟨⟨4, 0⟩, "mail", .deferred 7⟩] ∧
    evaluate .cancelNewest 2 crowd =
      [⟨⟨2, 0⟩, "mail", .queued⟩, ⟨⟨3, 0⟩, "mail", .cancelled⟩, ⟨⟨4, 0⟩, "mail", .deferred 7⟩] ∧
    (crowd.map (·.sortId)).Nodup ∧ (crowd.map (·.task)).Nodup ∧
    ((∃ stay leave, Cut crowd Newer (fun _ => 2) stay leave ∧
      Decides (evaluate .cancelInProgress 2 crowd) (stay.filter (!·.filled)) leave) ∧
    (∃ join leave, Cut (crowd.filter (!·.filled)) Older
        (fun key => 2 - (group key (crowd.filter (·.filled))).length) join leave ∧
      Decides (evaluate .cancelNewest 2 crowd) join leave) ∧
    ∀ c ∈ crowd, c.filled = true → ∀ d ∈ evaluate .cancelNewest 2 crowd, d.task ≠ c.task) :=
  ⟨by cbv, by cbv, by decide, by decide, cancelling_exact 2 crowd (by decide) (by decide)⟩

end WorkflowEngine.Admission
