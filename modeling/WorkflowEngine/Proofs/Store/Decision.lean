import Mathlib.Data.List.Infix
import WorkflowEngine.Proofs.Admission
import WorkflowEngine.Proofs.Admission.Summary
import WorkflowEngine.Proofs.Store.Place

/-!
Carrying out the decisions of a strategy. A decision to let an attempt in is about a slot that is not
filled, and such a slot is the last one of its task: the task waits for nothing but that decision.
-/

namespace WorkflowEngine.Store

open Admission (Decision)

variable {s s' : Store} {t : Task} {x : Slot} {before : List Slot} {i : TaskId} {σ : StrategyId}
  {d : Decision} {ds : List Decision}

/-! ### What one decision changes -/

theorem deferTo_only {next : StrategyId} (h : d.task.id = i) : OnlyTask i s (s.deferTo next x d) := by
  unfold deferTo
  split
  · exact .refl i s
  · split
    · exact .refl i s
    · split
      · exact .refl i s
      · exact h ▸ insertSlot_only _ _ _ _ _

theorem deferTo_tasks {next : StrategyId} : (s.deferTo next x d).tasks = s.tasks := by
  unfold deferTo
  split
  · rfl
  · split
    · rfl
    · split <;> rfl

theorem deferTo_lastTaskId {next : StrategyId} :
    (s.deferTo next x d).lastTaskId = s.lastTaskId := by
  unfold deferTo
  split
  · rfl
  · split
    · rfl
    · split <;> rfl

theorem carryOut_only : OnlyTask d.task.id s (s.carryOut σ d) := by
  unfold carryOut
  split
  · exact release_only
  · split
    · exact .refl _ s
    · exact fillSlot_only.trans (insertQueueItem_only ⟨_, d.task, d.queue⟩)
  · split
    · exact .refl _ s
    · exact fillSlot_only.trans (deferTo_only rfl)

@[simp] theorem carryOut_tasks : (s.carryOut σ d).tasks = s.tasks := by
  unfold carryOut
  split
  · rfl
  · split <;> rfl
  · split
    · rfl
    · exact deferTo_tasks

@[simp] theorem carryOut_lastTaskId : (s.carryOut σ d).lastTaskId = s.lastTaskId := by
  unfold carryOut
  split
  · rfl
  · split <;> rfl
  · split
    · rfl
    · exact deferTo_lastTaskId

/-! ### A task that waits in a strategy -/

/-- The last slot of the task is not filled, all earlier ones are. -/
structure Waits (s : Store) (t : Task) (before : List Slot) (x : Slot) : Prop where
  slots : s.slotsFor t.id = before ++ [x]
  filled : ∀ y ∈ before, y.filled = true
  strategies : t.concurrencyStrategyIds = before.map (·.strategyId) ++ x.strategyId :: x.next
  state : t.state = .queued
  items : ∀ q ∈ s.queueItems, q.task.id ≠ t.id

/-- A slot that is not filled is the last one of its task. -/
theorem Standing.waits (standing : s.Standing t) (wired : s.Wired t) (hx : x ∈ s.slotsFor t.id)
    (waiting : x.filled = false) : ∃ before, s.Waits t before x := by
  have notPassed : ¬ s.Passed t := by
    intro passed
    rw [passed.2 x hx] at waiting
    cases waiting
  have split := List.dropLast_concat_getLast (List.ne_nil_of_mem hx)
  have last : (s.slotsFor t.id).getLast (List.ne_nil_of_mem hx) = x := by
    rw [← split] at hx
    rcases List.mem_append.mp hx with earlier | here
    · rw [standing.filled x earlier] at waiting
      cases waiting
    · exact (List.mem_singleton.mp here).symm
  rw [last] at split
  refine ⟨(s.slotsFor t.id).dropLast, split.symm, standing.filled, ?_, ?_, ?_⟩
  · obtain ⟨passed, way⟩ := standing.next x hx
    obtain ⟨rest, covered⟩ := standing.strategies
    rw [← split, List.map_append, List.map_singleton, List.append_assoc, List.singleton_append,
      way] at covered
    have nodup := wired.distinct
    rw [way, List.nodup_middle] at nodup
    have fresh := (List.nodup_cons.mp nodup).1
    obtain ⟨same, -, -⟩ := (List.append_cons_inj_of_notMem
      (fun h => fresh (List.mem_append_left _ h)) (fun h => fresh (List.mem_append_right _ h))).mp covered.symm
    rw [← same]
    exact way
  · cases state : t.state with
    | queued => rfl
    | running =>
      rcases standing.running state with none | passed
      · rw [none] at hx
        cases hx
      · exact absurd passed notPassed
    | _ =>
      rw [standing.ended (by rw [state]; rfl)] at hx
      cases hx
  · intro q hq mine
    exact notPassed (standing.item q hq mine).2.2

theorem Waits.fill (waits : s.Waits t before x) :
    (s.fillSlot x.strategyId t.id).slotsFor t.id = before ++ [{ x with filled := true }] := by
  rw [fillSlot_slotsFor, waits.slots, List.map_append]
  congr 1
  · have kept : ∀ y ∈ before,
        (if y.strategyId == x.strategyId then { y with filled := true } else y) = y := by
      intro y hy
      split
      · rw [← waits.filled y hy]
      · rfl
    rw [List.map_congr_left kept, List.map_id']
  · simp

/-- Let in by its last strategy, the task enters its queue. -/
theorem Waits.queue_standing (waits : s.Waits t before x) (standing : s.Standing t)
    (last : x.next = []) :
    ((s.fillSlot x.strategyId t.id).insertQueueItem
      ⟨t.tenantId, t.attempt, t.queue⟩).Standing t := by
  have slots : ((s.fillSlot x.strategyId t.id).insertQueueItem
      ⟨t.tenantId, t.attempt, t.queue⟩).slotsFor t.id = before ++ [{ x with filled := true }] :=
    waits.fill
  have own := standing.own
  have keys := standing.keys
  have next := standing.next
  rw [waits.slots] at own keys next
  have all : ∀ y ∈ before ++ [{ x with filled := true }], y.filled = true := by
    simpa [or_imp, forall_and] using waits.filled
  have way : (before ++ [({ x with filled := true } : Slot)]).map (·.strategyId) =
      t.concurrencyStrategyIds := by
    rw [waits.strategies, last, List.map_append, List.map_singleton]
  refine ⟨?_, ?_, ?_, ?_, ?_, ?_, ?_, ?_⟩
  · rw [slots]
    simpa [or_imp, forall_and] using own
  · rw [slots, way]
  · rw [slots]
    simpa using keys
  · rw [slots]
    simpa [or_imp, forall_and] using next
  · rw [slots]
    exact fun y hy => all y (List.dropLast_subset _ hy)
  · simp [waits.state, TaskState.isTerminal]
  · simp [waits.state]
  · intro q hq mine
    rcases mem_insertQueueItem hq with rfl | old
    · refine ⟨rfl, waits.state, ?_, ?_⟩
      · rw [slots, way]
      · rw [slots]
        exact all
    · exact absurd mine (waits.items q old)

theorem findIdx?_of_nodup {xs : List StrategyId} (nodup : xs.Nodup) {n : Nat} (h : n < xs.length) :
    xs.findIdx? (· == xs[n]) = some n := by
  refine List.findIdx?_eq_some_iff_getElem.mpr ⟨h, by simp, ?_⟩
  intro m less
  have differ : xs[m] ≠ xs[n] := fun same => by
    have := nodup.getElem_inj_iff.mp same
    omega
  simpa using differ

/-- The task holds no slot in the strategy that comes next. -/
theorem Waits.next_fresh (waits : s.Waits t before x) (wired : s.Wired t) {next : StrategyId}
    {rest : List StrategyId} (more : x.next = next :: rest) :
    ∀ y ∈ (s.fillSlot x.strategyId t.id).slotsFor t.id, y.strategyId ≠ next := by
  rw [waits.fill]
  rintro y hy rfl
  have nodup := wired.distinct
  rw [waits.strategies, more, ← List.singleton_append, ← List.append_assoc, List.nodup_append] at nodup
  refine nodup.2.2 y.strategyId ?_ y.strategyId List.mem_cons_self rfl
  rcases List.mem_append.mp hy with earlier | last
  · exact List.mem_append_left _ (List.mem_map_of_mem earlier)
  · rw [List.mem_singleton.mp last]
    exact List.mem_append_right _ (List.mem_singleton.mpr rfl)

/-- Let in by a strategy that is not its last, the task comes to the next one. -/
theorem Waits.deferTo_eq (waits : s.Waits t before x) (wired : s.Wired t) (ordered : s.Ordered)
    (ht : t ∈ s.tasks) {next : StrategyId} {rest : List StrategyId} (more : x.next = next :: rest)
    (id : d.task.id = t.id) :
    ∃ key, t.concurrencyKeys[before.length + 1]? = some key ∧
      (s.fillSlot x.strategyId t.id).deferTo next x d =
        (s.fillSlot x.strategyId t.id).insertSlot x.tenantId next d.task key d.queue rest := by
  have way := waits.strategies
  rw [more] at way
  have size : t.concurrencyStrategyIds.length = before.length + (rest.length + 1 + 1) := by
    rw [way, List.length_append, List.length_map, List.length_cons, List.length_cons]
  have place : before.length + 1 < t.concurrencyStrategyIds.length := by omega
  have here : t.concurrencyStrategyIds[before.length + 1] = next := by
    simp [way]
  have keyed : before.length + 1 < t.concurrencyKeys.length := by
    rw [wired.keyed]
    exact place
  have absent : (s.fillSlot x.strategyId t.id).slot? next d.task.id = none := by
    refine List.find?_eq_none.mpr ?_
    intro y hy found
    simp only [Bool.and_eq_true, beq_iff_eq] at found
    exact waits.next_fresh wired more y (mem_slotsFor.mpr ⟨hy, by rw [found.2, id]⟩) found.1
  have known : (s.fillSlot x.strategyId t.id).task? d.task.id = some t := by
    rw [id]
    exact ordered.task?_eq ht
  have index : t.concurrencyStrategyIds.findIdx? (· == next) = some (before.length + 1) := by
    have found := findIdx?_of_nodup wired.distinct place
    rwa [here] at found
  have left : t.concurrencyStrategyIds.drop (before.length + 1 + 1) = rest := by
    have split : t.concurrencyStrategyIds =
        (before.map (·.strategyId) ++ [x.strategyId, next]) ++ rest := by
      simp [way]
    rw [split, List.drop_left' (by simp)]
  refine ⟨t.concurrencyKeys[before.length + 1], List.getElem?_eq_getElem keyed, ?_⟩
  simp only [deferTo, absent, known, index, left, List.getElem?_eq_getElem keyed, Option.isSome_none,
    Bool.false_eq_true, if_false, Option.getD_some]

theorem Waits.defer_standing (waits : s.Waits t before x) (standing : s.Standing t)
    (wired : s.Wired t) {next : StrategyId} {rest : List StrategyId} {key : String}
    (more : x.next = next :: rest) (keyed : t.concurrencyKeys[before.length + 1]? = some key) :
    ((s.fillSlot x.strategyId t.id).insertSlot t.tenantId next t.attempt key t.queue rest).Standing
      t := by
  have way := waits.strategies
  rw [more] at way
  have slots := insertSlot_slotsFor t.tenantId t.attempt key t.queue rest
    (waits.next_fresh wired more)
  rw [show t.attempt.id = t.id from rfl, waits.fill] at slots
  have own := standing.own
  have keys := standing.keys
  have nexts := standing.next
  rw [waits.slots] at own keys nexts
  refine ⟨?_, ?_, ?_, ?_, ?_, ?_, ?_, ?_⟩
  · rw [slots]
    simpa [or_imp, forall_and, newSlot] using own
  · rw [slots, way]
    simp [newSlot]
  · obtain ⟨bound, read⟩ := List.getElem?_eq_some_iff.mp keyed
    have longer := List.concat_get_prefix keys (by simpa using bound)
    rw [slots]
    simpa [newSlot, read] using longer
  · rw [slots]
    intro y hy
    rcases List.mem_append.mp hy with old | new
    · rcases List.mem_append.mp old with earlier | last
      · exact nexts y (List.mem_append_left _ earlier)
      · rw [List.mem_singleton.mp last]
        exact nexts x (List.mem_append_right _ (List.mem_singleton.mpr rfl))
    · rw [List.mem_singleton.mp new]
      exact ⟨before.map (·.strategyId) ++ [x.strategyId], by simp [way, newSlot]⟩
  · rw [slots, List.dropLast_concat]
    simpa [or_imp, forall_and] using waits.filled
  · simp [waits.state, TaskState.isTerminal]
  · simp [waits.state]
  · exact fun q hq mine => absurd mine (waits.items q hq)

/-! ### Sound decisions -/

/-- The decision is about a slot of the strategy as it is: it lets in one that is not filled, or
cancels one. -/
def Backs (s : Store) (σ : StrategyId) (d : Decision) : Prop :=
  ∃ x ∈ s.slots, x.strategyId = σ ∧
    (d = (candidate x).cancel ∨ (x.filled = false ∧ d = (candidate x).letIn))

theorem Backs.of_only (backs : s.Backs σ d) (only : OnlyTask i s s') (other : d.task.id ≠ i) :
    s'.Backs σ d := by
  obtain ⟨x, hx, strategy, verdict⟩ := backs
  have same : x.task.id = d.task.id := by
    rcases verdict with rfl | ⟨_, rfl⟩ <;> rfl
  have held : x ∈ s'.slotsFor x.task.id := by
    rw [only.slots _ (by rw [same]; exact other)]
    exact mem_slotsFor.mpr ⟨hx, rfl⟩
  exact ⟨x, (mem_slotsFor.mp held).1, strategy, verdict⟩

/-- Let in, a waiting task enters its queue if this strategy was its last, and else comes to the next
one. -/
theorem Sound.letIn_eq (sound : s.Sound) (ht : t ∈ s.tasks) (hx : x ∈ s.slotsFor t.id)
    (waits : s.Waits t before x) :
    (x.next = [] ∧ s.carryOut x.strategyId (candidate x).letIn =
      (s.fillSlot x.strategyId t.id).insertQueueItem ⟨t.tenantId, t.attempt, t.queue⟩) ∨
    ∃ next rest key, x.next = next :: rest ∧ t.concurrencyKeys[before.length + 1]? = some key ∧
      s.carryOut x.strategyId (candidate x).letIn =
        (s.fillSlot x.strategyId t.id).insertSlot t.tenantId next t.attempt key t.queue rest := by
  have wired := sound.wired t ht
  obtain ⟨tenant, attempt, queue⟩ := (sound.standing t ht).own x hx
  have here : s.slot? x.strategyId x.task.id = some x := sound.slot?_eq (mem_slotsFor.mp hx).1
  have id : x.task.id = t.id := (mem_slotsFor.mp hx).2
  cases more : x.next with
  | nil =>
    have carried : s.carryOut x.strategyId (candidate x).letIn =
        (s.fillSlot x.strategyId x.task.id).insertQueueItem ⟨x.tenantId, x.task, x.queue⟩ := by
      simp [carryOut, candidate, Admission.Candidate.letIn, more, here]
    refine Or.inl ⟨rfl, ?_⟩
    rw [carried, id, tenant, attempt, queue]
  | cons next rest =>
    have carried : s.carryOut x.strategyId (candidate x).letIn =
        (s.fillSlot x.strategyId x.task.id).deferTo next x (candidate x).letIn := by
      simp [carryOut, candidate, Admission.Candidate.letIn, more, here]
    obtain ⟨key, keyed, deferred⟩ := waits.deferTo_eq wired sound.ordered ht more
      (show (candidate x).letIn.task.id = t.id from id)
    refine Or.inr ⟨next, rest, key, rfl, keyed, ?_⟩
    rw [carried, id, deferred, tenant, ← attempt, ← queue]
    rfl

theorem letIn_standing (sound : s.Sound) (ht : t ∈ s.tasks) (hx : x ∈ s.slotsFor t.id)
    (waiting : x.filled = false) :
    (s.carryOut x.strategyId (candidate x).letIn).Standing t := by
  have standing := sound.standing t ht
  have wired := sound.wired t ht
  obtain ⟨before, waits⟩ := standing.waits wired hx waiting
  obtain ⟨last, carried⟩ | ⟨next, rest, key, more, keyed, carried⟩ := sound.letIn_eq ht hx waits
  · rw [carried]
    exact waits.queue_standing standing last
  · rw [carried]
    exact waits.defer_standing standing wired more keyed

theorem carryOut_sound (sound : s.Sound) (backs : s.Backs σ d) : (s.carryOut σ d).Sound := by
  obtain ⟨x, hx, rfl, verdict⟩ := backs
  obtain ⟨t, ht, owner⟩ := sound.slotOwner x hx
  have held : x ∈ s.slotsFor t.id := mem_slotsFor.mpr ⟨hx, owner.symm⟩
  have about : t.id = d.task.id := by
    rcases verdict with rfl | ⟨_, rfl⟩ <;> exact owner
  have standing : (s.carryOut x.strategyId d).Standing t := by
    rcases verdict with rfl | ⟨waiting, rfl⟩
    · have placeless : (s.release t.id).Placeless t.id := release_placeless
      rw [about] at placeless
      exact Placeless.standing (about ▸ placeless)
    · exact letIn_standing sound ht held waiting
  refine sound.of_only carryOut_only ?_ ?_ ?_ ?_
  · rw [Ordered, carryOut_tasks]
    exact sound.ordered
  · rw [carryOut_tasks, carryOut_lastTaskId]
    exact sound.latest
  · rw [carryOut_tasks]
    exact ⟨t, ht, about⟩
  · rw [carryOut_tasks]
    intro v hv same
    rw [sound.ordered.eq_of_id hv ht (same.trans about.symm)]
    exact ⟨(sound.wired t ht).of_same carryOut_only.terms, standing⟩

/-- Carries out decisions, one after the other. -/
def carryOutAll (s : Store) (σ : StrategyId) (ds : List Decision) : Store :=
  ds.foldl (fun s d => s.carryOut σ d) s

theorem carryOutAll_terms : SameTerms s (s.carryOutAll σ ds) := by
  induction ds generalizing s with
  | nil => exact .refl s
  | cons d rest ih => exact carryOut_only.terms.trans ih

theorem carryOutAll_tasks : (s.carryOutAll σ ds).tasks = s.tasks := by
  induction ds generalizing s with
  | nil => rfl
  | cons d rest ih => exact ih.trans carryOut_tasks

theorem carryOutAll_lastTaskId : (s.carryOutAll σ ds).lastTaskId = s.lastTaskId := by
  induction ds generalizing s with
  | nil => rfl
  | cons d rest ih => exact ih.trans carryOut_lastTaskId

theorem carryOutAll_sound {ds : List Decision} (sound : s.Sound) (backs : ∀ d ∈ ds, s.Backs σ d)
    (once : (ds.map (·.task.id)).Nodup) : (s.carryOutAll σ ds).Sound := by
  induction ds generalizing s with
  | nil => exact sound
  | cons d rest ih =>
    obtain ⟨fresh, once⟩ := List.nodup_cons.mp once
    refine ih (carryOut_sound sound (backs d List.mem_cons_self)) ?_ once
    intro d' hd'
    refine (backs d' (List.mem_cons_of_mem _ hd')).of_only carryOut_only ?_
    exact fun same => fresh (List.mem_map.mpr ⟨d', hd', same⟩)

/-! ### Running a strategy -/

/-- The strategy as the store knows it. -/
def asRegistered (s : Store) (strategy : Strategy) : Strategy :=
  (s.strategy? strategy.id).getD strategy

theorem asRegistered_id (s : Store) (strategy : Strategy) :
    (s.asRegistered strategy).id = strategy.id := by
  unfold asRegistered
  cases found : s.strategy? strategy.id with
  | none => rfl
  | some known => simpa using List.find?_some found

theorem runStrategy_terms {tenant : TenantId} {strategy : Strategy} :
    SameTerms s (s.runStrategy tenant strategy).2 := by
  have pruned : ∀ σ, SameTerms s (s.pruneSlots σ) := fun σ => ⟨rfl, rfl, rfl, rfl⟩
  exact (pruned _).trans carryOutAll_terms

theorem runStrategy_tasks {tenant : TenantId} {strategy : Strategy} :
    (s.runStrategy tenant strategy).2.tasks = s.tasks :=
  carryOutAll_tasks

theorem runStrategy_lastTaskId {tenant : TenantId} {strategy : Strategy} :
    (s.runStrategy tenant strategy).2.lastTaskId = s.lastTaskId :=
  carryOutAll_lastTaskId

section
variable (sound : s.Sound)
include sound

/-- A task has at most one slot in a strategy. -/
theorem Sound.slotsOf_distinct : ((s.slotsOf σ).map (·.task.id)).Nodup := by
  refine List.pairwise_map.mpr (List.pairwise_iff_forall_sublist.mpr ?_)
  intro x y pair same
  have hx : x ∈ s.slotsOf σ := pair.subset List.mem_cons_self
  have hy : y ∈ s.slotsOf σ := pair.subset (List.mem_cons_of_mem _ List.mem_cons_self)
  obtain ⟨hx, strategy⟩ := List.mem_filter.mp hx
  obtain ⟨hy, strategy'⟩ := List.mem_filter.mp hy
  obtain ⟨t, ht, owner⟩ := sound.slotOwner x hx
  have both : [x, y].Sublist (s.slotsFor t.id) := by
    have filtered := (pair.trans List.filter_sublist).filter (·.task.id == t.id)
    rwa [List.filter_eq_self.mpr (by simp [owner, same])] at filtered
  have nodup := (sound.standing t ht).strategies.sublist.nodup (sound.wired t ht).distinct
  have apart := (both.map (·.strategyId)).nodup nodup
  have equal : x.strategyId = y.strategyId := (eq_of_beq strategy).trans (eq_of_beq strategy').symm
  simp [equal] at apart

theorem Sound.candidates_distinct {p : Slot → Bool} :
    Admission.Distinct (((s.slotsOf σ).filter p).map candidate) := by
  rw [Admission.Distinct, List.map_map]
  exact (List.filter_sublist.map _).nodup sound.slotsOf_distinct

theorem Sound.decisions_back {tenant : TenantId} {strategy : Strategy}
    (h : d ∈ s.decisions tenant strategy) : s.Backs strategy.id d := by
  obtain ⟨c, hc, verdict⟩ := Admission.evaluate_backed sound.candidates_distinct h
  obtain ⟨x, hx, rfl⟩ := List.mem_map.mp hc
  obtain ⟨hx, own⟩ := List.mem_filter.mp (List.mem_filter.mp hx).1
  exact ⟨x, hx, eq_of_beq own, verdict⟩

/-- A strategy decides about its own slots, also as it is registered. -/
theorem Sound.decisions_backed (tenant : TenantId) (strategy : Strategy) :
    ∀ d ∈ s.decisions tenant (s.asRegistered strategy), s.Backs strategy.id d := by
  intro d hd
  have backs := sound.decisions_back hd
  rwa [asRegistered_id] at backs

theorem Sound.decisions_nodup (tenant : TenantId) (strategy : Strategy) :
    ((s.decisions tenant strategy).map (·.task.id)).Nodup :=
  Admission.evaluate_nodup sound.candidates_distinct

/-- In a sound store there is nothing to prune before a strategy runs. -/
theorem Sound.runStrategy_eq (tenant : TenantId) (strategy : Strategy) :
    s.runStrategy tenant strategy =
      (.ofDecisions (s.decisions tenant (s.asRegistered strategy)),
        s.carryOutAll strategy.id (s.decisions tenant (s.asRegistered strategy))) := by
  have prune := sound.pruneSlots_eq strategy.id
  rw [← asRegistered_id s strategy] at prune ⊢
  simp only [runStrategy]
  rw [show (s.strategy? strategy.id).getD strategy = s.asRegistered strategy from rfl, prune]
  rfl

theorem runStrategy_sound (tenant : TenantId) (strategy : Strategy) :
    (s.runStrategy tenant strategy).2.Sound := by
  rw [sound.runStrategy_eq]
  exact carryOutAll_sound sound (sound.decisions_backed _ _) (sound.decisions_nodup _ _)

end

end WorkflowEngine.Store
