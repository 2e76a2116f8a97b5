import Mathlib.Data.List.Nodup
import WorkflowEngine.Admission.Policy

/-!
What a summary tells of the decisions of one evaluation: all that queue an attempt and all that cancel
one, in order, and each strategy that attempts were deferred to, once.
-/

namespace WorkflowEngine.Admission.Summary

variable {ds : List Decision} {p : Placed} {σ : StrategyId}

/-- The attempts that were decided about in this way, with their queues. -/
def placed (verdict : Verdict) (ds : List Decision) : List Placed :=
  (ds.filter (·.verdict == verdict)).map fun d => ⟨d.task, d.queue⟩

theorem mem_placed {verdict : Verdict} :
    p ∈ placed verdict ds ↔ ∃ d ∈ ds, d.verdict = verdict ∧ p = ⟨d.task, d.queue⟩ := by
  simp only [placed, List.mem_map, List.mem_filter, beq_iff_eq, and_assoc, eq_comm (a := p)]

theorem foldl_add (r : Summary) :
    (ds.foldl add r).queued = r.queued ++ placed .queued ds ∧
      (ds.foldl add r).cancelled = r.cancelled ++ placed .cancelled ds := by
  induction ds generalizing r with
  | nil => simp [placed]
  | cons d rest ih =>
    rw [List.foldl_cons, (ih _).1, (ih _).2]
    unfold add placed
    cases verdict : d.verdict with
    | queued => simp [verdict]
    | cancelled => simp [verdict]
    | deferred next =>
      dsimp only
      split <;> simp [verdict]

theorem mem_foldl_add_next (r : Summary) : σ ∈ (ds.foldl add r).nextStrategyIds ↔
    σ ∈ r.nextStrategyIds ∨ ∃ d ∈ ds, d.verdict = .deferred σ := by
  induction ds generalizing r with
  | nil => simp
  | cons d rest ih =>
    rw [List.foldl_cons, ih, List.exists_mem_cons_iff, ← or_assoc]
    refine or_congr_left ?_
    unfold add
    cases d.verdict with
    | queued => simp
    | cancelled => simp
    | deferred next =>
      simp only [Verdict.deferred.injEq]
      split
      · rename_i listed
        refine ⟨Or.inl, fun known => known.elim id ?_⟩
        rintro rfl
        exact List.contains_iff_mem.mp listed
      · simp [eq_comm]

theorem ofDecisions_queued : (ofDecisions ds).queued = placed .queued ds := (foldl_add {}).1

theorem ofDecisions_cancelled : (ofDecisions ds).cancelled = placed .cancelled ds := (foldl_add {}).2

theorem mem_queued {a : Attempt} : a ∈ (ofDecisions ds).queued.map (·.task) ↔
    ∃ d ∈ ds, d.verdict = .queued ∧ d.task = a := by
  simp only [ofDecisions_queued, placed, List.map_map, List.mem_map, List.mem_filter, beq_iff_eq,
    and_assoc, Function.comp_apply]

theorem mem_cancelled {a : Attempt} : a ∈ (ofDecisions ds).cancelled.map (·.task) ↔
    ∃ d ∈ ds, d.verdict = .cancelled ∧ d.task = a := by
  simp only [ofDecisions_cancelled, placed, List.map_map, List.mem_map, List.mem_filter, beq_iff_eq,
    and_assoc, Function.comp_apply]

/-- If no task is decided about twice, none is told of twice. -/
theorem ofDecisions_once (once : (ds.map (·.task.id)).Nodup) :
    (((ofDecisions ds).queued ++ (ofDecisions ds).cancelled).map (·.task)).Nodup := by
  have each (verdict : Verdict) : ((placed verdict ds).map (·.task)).Nodup := by
    refine List.Nodup.of_map Attempt.id ?_
    rw [placed, List.map_map, List.map_map]
    exact (List.filter_sublist.map _).nodup once
  rw [List.map_append, List.nodup_append]
  refine ⟨ofDecisions_queued ▸ each .queued, ofDecisions_cancelled ▸ each .cancelled, ?_⟩
  rintro a joined _ left rfl
  obtain ⟨d, hd, queued, rfl⟩ := mem_queued.mp joined
  obtain ⟨d', hd', cancelled, same⟩ := mem_cancelled.mp left
  rw [List.inj_on_of_nodup_map once hd' hd (congrArg Attempt.id same), queued] at cancelled
  cases cancelled

theorem mem_nextStrategyIds :
    σ ∈ (ofDecisions ds).nextStrategyIds ↔ ∃ d ∈ ds, d.verdict = .deferred σ := by
  simp [ofDecisions, mem_foldl_add_next]

theorem nextStrategyIds_nodup : (ofDecisions ds).nextStrategyIds.Nodup := by
  refine List.foldlRecOn (motive := fun r : Summary => r.nextStrategyIds.Nodup) ds add .nil ?_
  intro r once d _
  unfold add
  cases d.verdict with
  | queued => exact once
  | cancelled => exact once
  | deferred next =>
    dsimp only
    split
    · exact once
    · rename_i fresh
      refine List.nodup_append.mpr ⟨once, List.nodup_singleton _, ?_⟩
      rintro σ old _ new rfl
      rw [List.mem_singleton.mp new] at old
      exact fresh (List.contains_iff_mem.mpr old)

end WorkflowEngine.Admission.Summary
