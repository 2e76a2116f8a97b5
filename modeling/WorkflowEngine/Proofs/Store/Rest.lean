import WorkflowEngine.Proofs.Admission.Rest
import WorkflowEngine.Proofs.Store.Capacity

/-!
A strategy that runs again. The places that a run leaves are those its policy left, so that the policy
finds nothing to decide about them.
-/

namespace WorkflowEngine.Store

open Admission (Candidate Decision remain remain_cons remain_nil)

variable {s s' : Store} {x : Slot} {σ : StrategyId} {tenant : TenantId} {strategy : Strategy}
  {d : Decision} {ds : List Decision} {evicted : List Attempt}

/-! ### One decision -/

/-- A slot of the strategy once a decision is carried out. -/
def settle (d : Decision) (x : Slot) : Option Slot :=
  if (candidate x).letIn = d then some { x with filled := true }
  else if (candidate x).cancel = d then none
  else some x

theorem candidate_after (d : Decision) (x : Slot) :
    (settle d x).map candidate = (candidate x).after [d] := by
  unfold settle Candidate.after
  simp only [List.mem_singleton]
  split
  · rfl
  · split <;> rfl

theorem release_slotsOf {i : TaskId} :
    (s.release i).slotsOf σ = (s.slotsOf σ).filter (·.task.id != i) :=
  List.filter_comm ..

theorem fillSlot_slotsOf {i : TaskId} : (s.fillSlot σ i).slotsOf σ =
    (s.slotsOf σ).map fun x => if x.task.id == i then { x with filled := true } else x := by
  simp only [slotsOf, fillSlot, List.filter_map]
  have same : s.slots.filter ((fun x : Slot => x.strategyId == σ) ∘ fun x =>
      if x.strategyId == σ && x.task.id == i then { x with filled := true } else x) =
      s.slots.filter (·.strategyId == σ) := by
    refine List.filter_congr fun x _ => ?_
    simp only [Function.comp_apply]
    split <;> rfl
  rw [same]
  refine List.map_congr_left fun x hx => ?_
  rw [(List.mem_filter.mp hx).2, Bool.true_and]

theorem insertSlot_slotsOf {τ : StrategyId} {a : Attempt} {key queue : String} {next : List StrategyId}
    (other : τ ≠ σ) : (s.insertSlot tenant τ a key queue next).slotsOf σ = s.slotsOf σ := by
  simp only [slotsOf, insertSlot, List.filter_append, List.filter_filter]
  have last : [newSlot s tenant τ a key queue next].filter (·.strategyId == σ) = [] := by
    simp [newSlot, other]
  change s.slots.filter _ ++ [newSlot s tenant τ a key queue next].filter _ = _
  rw [last, List.append_nil]
  refine List.filter_congr fun x _ => ?_
  by_cases h : x.strategyId = σ
  · simp [h, Ne.symm other]
  · simp [h]

theorem Sound.letIn_slotsOf (sound : s.Sound) (hx : x ∈ s.slots) (waiting : x.filled = false) :
    (s.carryOut x.strategyId (candidate x).letIn).slotsOf x.strategyId =
      (s.fillSlot x.strategyId x.task.id).slotsOf x.strategyId := by
  obtain ⟨t, ht, owner⟩ := sound.slotOwner x hx
  have held : x ∈ s.slotsFor t.id := mem_slotsFor.mpr ⟨hx, owner.symm⟩
  have wired := sound.wired t ht
  obtain ⟨before, waits⟩ := (sound.standing t ht).waits wired held waiting
  rw [← owner]
  obtain ⟨-, carried⟩ | ⟨next, rest, key, more, -, carried⟩ := sound.letIn_eq ht held waits
  · rw [carried]
    rfl
  · rw [carried]
    have filled : { x with filled := true } ∈ (s.fillSlot x.strategyId t.id).slotsFor t.id := by
      rw [waits.fill]
      exact List.mem_append_right _ List.mem_cons_self
    exact insertSlot_slotsOf (waits.next_fresh wired more _ filled).symm

theorem carryOut_slotsOf (sound : s.Sound) (backs : s.Backs σ d) :
    (s.carryOut σ d).slotsOf σ = (s.slotsOf σ).filterMap (settle d) := by
  obtain ⟨x, hx, rfl, verdict⟩ := backs
  have one {y : Slot} (hy : y ∈ s.slotsOf x.strategyId) (same : y.task.id = x.task.id) : y = x := by
    obtain ⟨listed, here⟩ := List.mem_filter.mp hy
    exact sound.slot_unique listed hx same (eq_of_beq here)
  rcases verdict with rfl | ⟨waiting, rfl⟩
  · change (s.release x.task.id).slotsOf x.strategyId = _
    rw [release_slotsOf, ← List.filterMap_eq_filter]
    refine List.filterMap_congr fun y hy => ?_
    by_cases same : y.task.id = x.task.id
    · rw [one hy same]
      simp [settle, Admission.letIn_ne_cancel]
    · have spared : (candidate y).cancel ≠ (candidate x).cancel := fun eq =>
        same (congrArg (fun d : Decision => d.task.id) eq)
      simp [settle, Admission.letIn_ne_cancel, spared, same]
  · rw [sound.letIn_slotsOf hx waiting, fillSlot_slotsOf, ← List.filterMap_eq_map]
    refine List.filterMap_congr fun y hy => ?_
    by_cases same : y.task.id = x.task.id
    · rw [one hy same]
      simp [settle]
    · have waits : (candidate y).letIn ≠ (candidate x).letIn := fun eq =>
        same (congrArg (fun d : Decision => d.task.id) eq)
      simp [settle, Ne.symm Admission.letIn_ne_cancel, waits, same]

/-! ### All decisions -/

/-- The places that a policy decides about. -/
def candidates (s : Store) (tenant : TenantId) (σ : StrategyId) : List Candidate :=
  ((s.slotsOf σ).filter (·.tenantId == tenant)).map candidate

theorem carryOut_candidates (sound : s.Sound) (backs : s.Backs σ d) :
    (s.carryOut σ d).candidates tenant σ = remain [d] (s.candidates tenant σ) := by
  rw [candidates, carryOut_slotsOf sound backs, candidates, remain, List.filter_filterMap,
    List.map_filterMap, List.filterMap_map, List.filterMap_filter]
  refine List.filterMap_congr fun x _ => ?_
  rw [Function.comp_apply, ← candidate_after]
  have owner (z : Slot) (hz : settle d x = some z) : z.tenantId = x.tenantId := by
    unfold settle at hz
    split at hz
    · cases hz
      rfl
    · split at hz <;> cases hz
      rfl
  cases settled : settle d x with
  | none => simp
  | some z =>
    by_cases mine : x.tenantId = tenant
    · simp [Option.filter, owner z settled, mine]
    · simp [Option.filter, owner z settled, mine]

theorem carryOutAll_candidates (sound : s.Sound) (backs : ∀ d ∈ ds, s.Backs σ d)
    (once : (ds.map (·.task.id)).Nodup) :
    (s.carryOutAll σ ds).candidates tenant σ = remain ds (s.candidates tenant σ) := by
  induction ds generalizing s with
  | nil => exact remain_nil.symm
  | cons d rest ih =>
    obtain ⟨fresh, once⟩ := List.nodup_cons.mp once
    obtain ⟨backed, backs⟩ := List.forall_mem_cons.mp backs
    rw [remain_cons fresh, ← carryOut_candidates sound backed]
    refine ih (carryOut_sound sound backed) (fun d' hd' => ?_) once
    exact (backs d' hd').of_only carryOut_only fun same => fresh (List.mem_map.mpr ⟨d', hd', same⟩)

/-! ### Another run -/

theorem SameTerms.asRegistered (same : SameTerms s s') (strategy : Strategy) :
    (s'.asRegistered strategy).terms = (s.asRegistered strategy).terms := by
  have known (s : Store) : (s.strategy? strategy.id).map Strategy.terms =
      (s.strategies.map Strategy.terms).find? (·.id == strategy.id) := by
    rw [List.find?_map]
    rfl
  have found := (known s').trans ((congrArg _ same.strategies).trans (known s).symm)
  rw [Store.asRegistered, Store.asRegistered, ← Option.getD_map Strategy.terms,
    ← Option.getD_map Strategy.terms, found]

theorem decisions_asRegistered (s : Store) (tenant : TenantId) (strategy : Strategy) :
    s.decisions tenant (s.asRegistered strategy) =
      Admission.evaluate (s.asRegistered strategy).policy (s.asRegistered strategy).maxConcurrency
        (s.candidates tenant strategy.id) := by
  rw [decisions, asRegistered_id]
  rfl

/-- A strategy that runs again with nothing in between finds nothing to do. -/
theorem runStrategy_idempotent (reached : Reachable evicted s) (tenant : TenantId) (strategy : Strategy) :
    (s.runStrategy tenant strategy).2.runStrategy tenant strategy =
      ({}, (s.runStrategy tenant strategy).2) := by
  have sound := reached.sound
  have left : (s.runStrategy tenant strategy).2.candidates tenant strategy.id =
      remain (s.decisions tenant (s.asRegistered strategy)) (s.candidates tenant strategy.id) := by
    rw [sound.runStrategy_eq]
    exact carryOutAll_candidates sound (sound.decisions_backed _ _) (sound.decisions_nodup _ _)
  have nothing : (s.runStrategy tenant strategy).2.decisions tenant
      ((s.runStrategy tenant strategy).2.asRegistered strategy) = [] := by
    have same : SameTerms s (s.runStrategy tenant strategy).2 := runStrategy_terms
    have terms := same.asRegistered strategy
    simp only [Strategy.terms, Strategy.mk.injEq] at terms
    rw [decisions_asRegistered, terms.2.2.2.2.1, terms.2.2.2.2.2.2.1, left, decisions_asRegistered]
    exact Admission.evaluate_remain _ _ sound.candidates_distinct
  rw [(runStrategy_sound sound tenant strategy).runStrategy_eq, nothing]
  rfl

/-- The run of the first limit lets a mail in and cancels one, and the next does nothing. -/
theorem mailed_runs_once : Reachable [] mailed ∧
    (mailed.runStrategy ⟨3⟩ oneOfUser).1 =
      { queued := [], cancelled := [⟨⟨2, 0⟩, "default"⟩], nextStrategyIds := [2] } ∧
    (mailed.runStrategy ⟨3⟩ oneOfUser).2.runStrategy ⟨3⟩ oneOfUser =
      ({}, (mailed.runStrategy ⟨3⟩ oneOfUser).2) :=
  ⟨mailed_reachable, mailed_told, runStrategy_idempotent mailed_reachable ⟨3⟩ oneOfUser⟩

end WorkflowEngine.Store
