import Mathlib.Data.List.Permutation
import WorkflowEngine.Proofs.Store.Reachable

/-!
No strategy lets in more than its limit. Slots are filled only when their own strategy runs, and its
policy sees all slots that are filled; everything else can only take filled slots away.
-/

namespace WorkflowEngine

/-- The strategy allows tasks of these keys to be let in together. -/
def Strategy.Allows {α : Type} [BEq α] (x : Strategy) (keys : List α) : Prop :=
  match x.policy with
  | .groupRoundRobin => (keys.length : Int) ≤ x.maxConcurrency
  | .cancelInProgress | .cancelNewest => ∀ key, (keys.count key : Int) ≤ x.maxConcurrency

theorem Strategy.Allows.subperm {α : Type} [BEq α] {x : Strategy} {keys fewer : List α}
    (allows : x.Allows keys) (sub : fewer.Subperm keys) : x.Allows fewer := by
  unfold Allows at allows ⊢
  split at allows
  · exact Int.le_trans (Int.ofNat_le.mpr sub.length_le) allows
  · exact fun key => Int.le_trans (Int.ofNat_le.mpr (sub.count_le key)) (allows key)
  · exact fun key => Int.le_trans (Int.ofNat_le.mpr (sub.count_le key)) (allows key)

theorem Strategy.Allows.some {x : Strategy} {keys : List String} (positive : 0 < x.maxConcurrency)
    (allows : x.Allows keys) : x.Allows (keys.map Option.some) := by
  have counted (each : ∀ key, (keys.count key : Int) ≤ x.maxConcurrency) (key : Option String) :
      ((keys.map Option.some).count key : Int) ≤ x.maxConcurrency := by
    cases key with
    | none =>
      rw [List.count_eq_zero.mpr (by simp)]
      exact Int.le_of_lt positive
    | some key =>
      rw [List.count_map_of_injective keys Option.some (fun _ _ => Option.some.inj)]
      exact each key
  unfold Allows at allows ⊢
  split at allows
  · rwa [List.length_map]
  · exact counted allows
  · exact counted allows

namespace Admission

variable {cs : List Candidate}

theorem count_keys (key : String) : (cs.map (·.key)).count key = (group key cs).length := by
  rw [group, ← List.countP_eq_length_filter, List.count, List.countP_map]
  rfl

/-- What a policy finds within its limit it leaves within its limit. -/
theorem evaluate_allows {x : Strategy} (distinct : Distinct cs) (positive : 0 < x.maxConcurrency)
    (allows : x.Allows ((cs.filter (·.filled)).map (·.key))) :
    x.Allows ((holders (evaluate x.policy x.maxConcurrency cs) cs).map (·.key)) := by
  have size : (x.maxConcurrency.toNat : Int) = x.maxConcurrency :=
    Int.toNat_of_nonneg (Int.le_of_lt positive)
  unfold Strategy.Allows at allows ⊢
  cases policy : x.policy with
  | groupRoundRobin =>
    simp only [policy, List.length_map] at allows ⊢
    have bound := groupRoundRobin_capacity x.maxConcurrency.toNat distinct
    rw [evaluate]
    omega
  | cancelInProgress =>
    simp only [policy, count_keys] at allows ⊢
    intro key
    have bound := cancelInProgress_capacity x.maxConcurrency.toNat key distinct
    rw [evaluate]
    omega
  | cancelNewest =>
    simp only [policy, count_keys] at allows ⊢
    intro key
    have bound := cancelNewest_capacity x.maxConcurrency.toNat key distinct
    have before := allows key
    rw [evaluate]
    omega

end Admission

namespace Store

open Admission (Decision)

variable {s s' : Store} {t : Task} {σ : StrategyId} {d : Decision} {ds : List Decision}
  {x y : Slot} {evicted : List Attempt}

/-- The slots of a strategy that hold capacity. -/
def filledOf (s : Store) (σ : StrategyId) : List Slot := (s.slotsOf σ).filter (·.filled)

theorem mem_filledOf : x ∈ s.filledOf σ ↔ x ∈ s.slots ∧ x.strategyId = σ ∧ x.filled = true := by
  simp only [filledOf, slotsOf, List.mem_filter, beq_iff_eq, and_assoc]

/-- Each strategy holds no more than it allows. -/
def Within (s : Store) : Prop := ∀ x ∈ s.strategies, x.Allows ((s.filledOf x.id).map (·.key))

/-! ### Away from the strategy itself -/

/-- No slot gets filled. -/
def Shrinks (s s' : Store) : Prop := ∀ x ∈ s'.slots, x.filled = true → x ∈ s.slots

theorem Sound.filledOf_nodup (sound : s.Sound) : (s.filledOf σ).Nodup :=
  (sound.slotsOf_distinct.of_map).sublist List.filter_sublist

theorem subperm_map {α β : Type} {l m : List α} (f : α → β) (sub : l.Subperm m) :
    (l.map f).Subperm (m.map f) := by
  obtain ⟨chosen, perm, sublist⟩ := sub
  exact ⟨chosen.map f, perm.map f, sublist.map f⟩

theorem filledOf_subperm (sound : s'.Sound)
    (sub : ∀ x ∈ s'.slots, x.strategyId = σ → x.filled = true → x ∈ s.slots) :
    ((s'.filledOf σ).map (·.key)).Subperm ((s.filledOf σ).map (·.key)) := by
  refine subperm_map _ (List.subperm_of_subset sound.filledOf_nodup ?_)
  intro x hx
  obtain ⟨listed, strategy, filled⟩ := mem_filledOf.mp hx
  exact mem_filledOf.mpr ⟨sub x listed strategy filled, strategy, filled⟩

theorem SameTerms.allows {α : Type} [BEq α] {x y : Strategy} {keys : List α}
    (same : x.terms = y.terms) (allows : x.Allows keys) : y.Allows keys := by
  simp only [Strategy.terms, Strategy.mk.injEq] at same
  unfold Strategy.Allows at allows ⊢
  rw [← same.2.2.2.2.1, ← same.2.2.2.2.2.2.1]
  exact allows

theorem Shrinks.within (shrinks : Shrinks s s') (sound : s'.Sound) (terms : SameTerms s s')
    (within : s.Within) : s'.Within := by
  intro y hy
  obtain ⟨x, hx, same⟩ := terms.mem hy
  have id : x.terms.id = y.terms.id := by rw [same]
  have allows := (within x hx).subperm (filledOf_subperm sound fun z hz _ => shrinks z hz)
  rw [show x.id = y.id from id] at allows
  exact SameTerms.allows same allows

theorem enqueue_shrinks : Shrinks s (s.enqueue t) := by
  intro x hx filled
  unfold enqueue at hx
  split at hx
  · exact hx
  · rcases insertSlot_slots_sub hx with old | new
    · exact old
    · rw [new] at filled
      cases filled

theorem cleared_shrinks {i : TaskId} : Shrinks s ((s.setTask t).release i) :=
  fun _ hx _ => (List.mem_filter.mp hx).1

/-- A registered workflow comes with strategies that hold nothing yet. -/
theorem registerWorkflow_within {tenant : TenantId} {w : Workflow} (sound : s.Sound)
    (valid : w.validate = .ok ()) (within : s.Within) :
    (s.registerWorkflow tenant w).2.Within := by
  have numbered := workflowStrategies_numbered tenant w s.lastStrategyId
    (Workflow.validate_ok valid).2
  intro x hx
  change x.Allows ((s.filledOf x.id).map (·.key))
  rcases List.mem_append.mp hx with old | new
  · exact within x old
  · have none : s.filledOf x.id = [] := by
      refine List.eq_nil_iff_forall_not_mem.mpr ?_
      intro y hy
      obtain ⟨listed, strategy, _⟩ := mem_filledOf.mp hy
      obtain ⟨z, hz, same, _⟩ := sound.slot_offered listed
      have old := sound.registry.latest z hz
      rw [same, strategy] at old
      exact Int.not_lt.mpr old (numbered.range x new).1
    rw [none]
    have positive := numbered.positive x new
    unfold Strategy.Allows
    split
    · exact Int.le_of_lt positive
    · exact fun _ => Int.le_of_lt positive
    · exact fun _ => Int.le_of_lt positive

/-! ### The strategy itself -/

theorem deferTo_shrinks {next : StrategyId} : Shrinks s (s.deferTo next x d) := by
  intro y hy filled
  unfold deferTo at hy
  split at hy
  · exact hy
  · split at hy
    · exact hy
    · split at hy
      · exact hy
      · rcases insertSlot_slots_sub hy with old | new
        · exact old
        · rw [new] at filled
          cases filled

theorem mem_fillSlot {i : TaskId} (hy : y ∈ (s.fillSlot σ i).slots) :
    y ∈ s.slots ∨
      ∃ x ∈ s.slots, x.strategyId = σ ∧ x.task.id = i ∧ y = { x with filled := true } := by
  obtain ⟨x, hx, rfl⟩ := List.mem_map.mp hy
  split
  · rename_i mine
    simp only [Bool.and_eq_true, beq_iff_eq] at mine
    exact Or.inr ⟨x, hx, mine.1, mine.2, rfl⟩
  · exact Or.inl hx

/-- The slot is one that the decision lets in. -/
def LetIn (s : Store) (σ : StrategyId) (d : Decision) (y : Slot) : Prop :=
  d.verdict ≠ .cancelled ∧
    ∃ x ∈ s.slots, x.strategyId = σ ∧ x.task.id = d.task.id ∧ y = { x with filled := true }

/-- A slot that is filled once a decision is carried out was there before and is not cancelled, or
was let in by the decision. -/
theorem carryOut_filled (hy : y ∈ (s.carryOut σ d).slots) (filled : y.filled = true) :
    (y ∈ s.slots ∧ (d.verdict = .cancelled → y.task.id ≠ d.task.id)) ∨ s.LetIn σ d y := by
  cases verdict : d.verdict with
  | cancelled =>
    simp only [carryOut, verdict] at hy
    obtain ⟨old, other⟩ := List.mem_filter.mp hy
    exact Or.inl ⟨old, fun _ => by simpa using other⟩
  | queued =>
    have live : d.verdict ≠ .cancelled := by simp [verdict]
    simp only [carryOut, verdict] at hy
    split at hy
    · exact Or.inl ⟨hy, fun ends => absurd ends (by simp)⟩
    · refine (mem_fillSlot hy).imp ?_ fun admitted => ⟨live, admitted⟩
      exact fun old => ⟨old, fun ends => absurd ends (by simp)⟩
  | deferred next =>
    have live : d.verdict ≠ .cancelled := by simp [verdict]
    simp only [carryOut, verdict] at hy
    split at hy
    · exact Or.inl ⟨hy, fun ends => absurd ends (by simp)⟩
    · refine (mem_fillSlot (deferTo_shrinks y hy filled)).imp ?_ fun admitted => ⟨live, admitted⟩
      exact fun old => ⟨old, fun ends => absurd ends (by simp)⟩

theorem carryOutAll_filled (once : (ds.map (·.task.id)).Nodup)
    (hy : y ∈ (s.carryOutAll σ ds).slots) (filled : y.filled = true) :
    (y ∈ s.slots ∧ ∀ d ∈ ds, d.verdict = .cancelled → y.task.id ≠ d.task.id) ∨
      ∃ d ∈ ds, s.LetIn σ d y := by
  induction ds generalizing s with
  | nil => exact Or.inl ⟨hy, by simp⟩
  | cons first rest ih =>
    obtain ⟨fresh, once⟩ := List.nodup_cons.mp once
    rcases ih once hy with ⟨old, spared⟩ | ⟨d, hd, live, x, hx, strategy, task, rfl⟩
    · rcases carryOut_filled old filled with ⟨listed, notNow⟩ | admitted
      · refine Or.inl ⟨listed, ?_⟩
        intro d hd
        rcases List.mem_cons.mp hd with rfl | later
        · exact notNow
        · exact spared d later
      · exact Or.inr ⟨first, List.mem_cons_self, admitted⟩
    · refine Or.inr ⟨d, List.mem_cons_of_mem _ hd, live, x, ?_, strategy, task, rfl⟩
      have other : x.task.id ≠ first.task.id := by
        rw [task]
        exact fun same => fresh (List.mem_map.mpr ⟨d, hd, same⟩)
      have held := mem_slotsFor.mpr ⟨hx, rfl⟩
      rw [carryOut_only.slots _ other] at held
      exact (mem_slotsFor.mp held).1

theorem Registry.eq_of_id (registry : s.Registry) {a b : Strategy} (ha : a ∈ s.strategies)
    (hb : b ∈ s.strategies) (same : a.id = b.id) : a = b := by
  have nodup : (s.strategies.map (·.id)).Nodup :=
    List.pairwise_map.mpr (registry.numbered.imp fun less => Int.ne_of_lt less)
  exact List.inj_on_of_nodup_map nodup ha hb same

theorem Registry.asRegistered_eq (registry : s.Registry) {known strategy : Strategy}
    (h : known ∈ s.strategies) (same : known.id = strategy.id) :
    s.asRegistered strategy = known := by
  unfold asRegistered
  cases found : s.strategy? strategy.id with
  | none =>
    have absent := List.find?_eq_none.mp found known h
    simp [same] at absent
  | some other =>
    have id : other.id = strategy.id := by simpa using List.find?_some found
    exact registry.eq_of_id (List.mem_of_find?_eq_some found) h (id.trans same.symm)

section
variable (sound : s.Sound)
include sound

/-- All slots of a strategy are of its tenant. -/
theorem Sound.slot_tenant {known : Strategy} (h : known ∈ s.strategies) (hx : x ∈ s.slotsOf known.id) :
    x.tenantId = known.tenantId := by
  obtain ⟨listed, own⟩ := List.mem_filter.mp hx
  obtain ⟨other, ho, id, tenant⟩ := sound.slot_offered listed
  rw [← tenant, sound.registry.eq_of_id ho h (id.trans (eq_of_beq own))]

/-- What is filled after the decisions of a strategy is what its policy holds. -/
theorem Sound.filled_holds {known : Strategy} {p : Slot → Bool}
    (all : ∀ x ∈ s.slotsOf known.id, p x = true)
    (back : ∀ d ∈ ds, s.Backs known.id d) (once : (ds.map (·.task.id)).Nodup)
    (hy : y ∈ (s.carryOutAll known.id ds).filledOf known.id) :
    ∃ c ∈ Admission.holders ds (((s.slotsOf known.id).filter p).map candidate),
      (c.task.id, c.key) = (y.task.id, y.key) := by
  have candidates : ∀ x ∈ s.slots, x.strategyId = known.id →
      candidate x ∈ ((s.slotsOf known.id).filter p).map candidate := by
    intro x hx own
    have listed : x ∈ s.slotsOf known.id := List.mem_filter.mpr ⟨hx, beq_iff_eq.mpr own⟩
    exact List.mem_map_of_mem (List.mem_filter.mpr ⟨listed, all x listed⟩)
  obtain ⟨listed, own, filled⟩ := mem_filledOf.mp hy
  rcases carryOutAll_filled once listed filled with ⟨old, spared⟩ | ⟨d, hd, live, x, hx, mine, task, rfl⟩
  · refine ⟨candidate y, Admission.mem_holders.mpr ⟨candidates y old own, Or.inr ⟨filled, ?_⟩⟩, rfl⟩
    exact fun cancelled => spared _ cancelled rfl rfl
  · refine ⟨candidate x, Admission.mem_holders.mpr ⟨candidates x hx mine, Or.inl ?_⟩, rfl⟩
    obtain ⟨x', hx', mine', verdict⟩ := back d hd
    have same : x = x' := by
      refine sound.slot_unique hx hx' ?_ (mine.trans mine'.symm)
      rw [task]
      rcases verdict with rfl | ⟨_, rfl⟩ <;> rfl
    rcases verdict with rfl | ⟨_, rfl⟩
    · exact absurd rfl live
    · rw [same]
      exact hd

/-- A strategy that runs stays within its own limit. -/
theorem Sound.decisions_within (within : s.Within) (tenant : TenantId) {known : Strategy}
    (h : known ∈ s.strategies)
    (after : (s.carryOutAll known.id (s.decisions tenant known)).Sound) :
    known.Allows (((s.carryOutAll known.id (s.decisions tenant known)).filledOf known.id).map
      (·.key)) := by
  by_cases owner : known.tenantId = tenant
  · have all : ∀ x ∈ s.slotsOf known.id, (x.tenantId == tenant) = true :=
      fun x hx => by rw [sound.slot_tenant h hx, owner, beq_self_eq_true]
    have held : (((s.slotsOf known.id).filter (·.tenantId == tenant)).map candidate).filter
        (·.filled) = (s.filledOf known.id).map candidate := by
      rw [List.filter_eq_self.mpr all, List.filter_map]
      rfl
    have allowed := Admission.evaluate_allows (x := known) (sound.candidates_distinct
      (p := (·.tenantId == tenant))) (sound.registry.positive known h) (by
        rw [held, List.map_map]
        exact within known h)
    refine allowed.subperm ?_
    have nodup : (((s.carryOutAll known.id (s.decisions tenant known)).filledOf known.id).map
        fun y => (y.task.id, y.key)).Nodup := by
      have ids : (((s.carryOutAll known.id (s.decisions tenant known)).filledOf known.id).map
          fun y : Slot => y.task.id).Nodup :=
        (List.filter_sublist.map _).nodup after.slotsOf_distinct
      refine List.Nodup.of_map Prod.fst ?_
      rw [List.map_map]
      exact ids
    have sub := List.subperm_of_subset nodup fun pair hpair => by
      obtain ⟨y, hy, rfl⟩ := List.mem_map.mp hpair
      obtain ⟨c, hc, same⟩ := sound.filled_holds all (fun d hd => sound.decisions_back hd)
        (sound.decisions_nodup tenant known) hy
      exact List.mem_map.mpr ⟨c, hc, same⟩
    have keys := subperm_map Prod.snd sub
    rw [List.map_map, List.map_map] at keys
    exact keys
  · have none : s.decisions tenant known = [] := by
      have nobody : (s.slotsOf known.id).filter (·.tenantId == tenant) = [] := by
        refine List.filter_eq_nil_iff.mpr ?_
        intro x hx
        rw [sound.slot_tenant h hx]
        simpa using owner
      rw [decisions, nobody]
      refine List.eq_nil_iff_forall_not_mem.mpr ?_
      intro d hd
      obtain ⟨c, hc, _⟩ := Admission.evaluate_backed (show Admission.Distinct [] from .nil) hd
      cases hc
    rw [none]
    exact within known h

/-- Running a strategy keeps every strategy within its limit. -/
theorem runStrategy_within (within : s.Within) (tenant : TenantId) (strategy : Strategy) :
    (s.runStrategy tenant strategy).2.Within := by
  have after := runStrategy_sound sound tenant strategy
  rw [sound.runStrategy_eq] at after ⊢
  have once := sound.decisions_nodup tenant (s.asRegistered strategy)
  intro y hy
  obtain ⟨known, listed, same⟩ := carryOutAll_terms.mem hy
  have id : known.terms.id = y.terms.id := by rw [same]
  refine SameTerms.allows same ?_
  rw [← show known.id = y.id from id]
  by_cases own : known.id = strategy.id
  · rw [sound.registry.asRegistered_eq listed own, ← own] at after ⊢
    exact sound.decisions_within within tenant listed after
  · refine (within known listed).subperm (filledOf_subperm after ?_)
    intro z hz mine filled
    rcases carryOutAll_filled once hz filled with ⟨old, _⟩ | ⟨d, _, _, x, _, other, _, rfl⟩
    · exact old
    · exact absurd (mine.symm.trans other) own

end

theorem insertTask_shrinks {w : RegisteredWorkflow} {step : Step} {n : NewTask} {now : Instant}
    (free : ∀ p ∈ n.forced, p.1 ≠ .queued) (h : s.insertTask w step n now = .ok (t, s')) :
    Shrinks s s' := by
  obtain ⟨_, ⟨_, rfl⟩ | ⟨_, rfl⟩⟩ := insertTask_ok free h
  · have shrinks : Shrinks (s.addTask t) ((s.addTask t).enqueue t) := enqueue_shrinks
    exact shrinks
  · exact fun x hx _ => hx

theorem Move.within (move : Move s evicted s') (sound : s.Sound) (within : s.Within) :
    s'.Within := by
  have after := move.sound sound
  cases move with
  | created known own free done =>
    exact (insertTask_shrinks free done).within after (insertTask_terms free done) within
  | @ended t u ht live keeps ends =>
    have shrinks : Shrinks s ((s.setTask u).release u.id) := cleared_shrinks
    exact shrinks.within after (cleared_only keeps).terms within
  | @retried t u ht live keeps state =>
    have shrinks : Shrinks s (((s.setTask u).release u.id).enqueue u) :=
      fun x hx filled => cleared_shrinks x (enqueue_shrinks x hx filled) filled
    have cleared : SameTerms s ((s.setTask u).release u.id) := (cleared_only keeps).terms
    exact shrinks.within after (cleared.trans enqueue_only.terms) within
  | started ht keeps attempt state waits =>
    exact Shrinks.within (fun x hx _ => hx) after ⟨rfl, rfl, rfl, rfl⟩ within
  | ran tenant strategy => exact runStrategy_within sound within tenant strategy
  | registered valid => exact registerWorkflow_within sound valid within
  | refreshed tenant strategy =>
    refine Shrinks.within ?_ after refreshActive_terms within
    rw [refreshActive_eq]
    exact fun x hx _ => hx
  | other alike =>
    exact Shrinks.within (fun x hx _ => alike.slots ▸ hx) after alike.terms within

/-! ### Attempts at work -/

/-- A task that runs has passed all its strategies, unless its attempt was evicted. -/
def Tracked (evicted : List Attempt) (s : Store) : Prop :=
  ∀ t ∈ s.tasks, t.state = .running → t.attempt ∈ evicted ∨ s.Passed t

theorem Tracked.of_only {i : TaskId} (tracked : Tracked evicted s) (only : OnlyTask i s s')
    (changed : ∀ t ∈ s'.tasks, t.id = i → t.state = .running → t.attempt ∈ evicted ∨ s'.Passed t) :
    Tracked evicted s' := by
  intro t ht running
  by_cases mine : t.id = i
  · exact changed t ht mine running
  · rw [Passed, only.slots t.id mine]
    exact tracked t ((only.tasks t mine).mp ht) running

theorem Tracked.of_parts (tracked : Tracked evicted s) (tasks : s'.tasks = s.tasks)
    (slots : s'.slots = s.slots) : Tracked evicted s' := by
  intro t ht running
  rw [tasks] at ht
  rw [Passed, slotsFor, slots]
  exact tracked t ht running

theorem carryOutAll_slotsFor {i : TaskId} (other : ∀ d ∈ ds, d.task.id ≠ i) :
    (s.carryOutAll σ ds).slotsFor i = s.slotsFor i := by
  induction ds generalizing s with
  | nil => rfl
  | cons d rest ih =>
    have later := ih (s := s.carryOut σ d) fun d hd => other d (List.mem_cons_of_mem _ hd)
    exact later.trans (carryOut_only.slots i (Ne.symm (other d List.mem_cons_self)))

theorem runStrategy_tracked (sound : s.Sound) (tracked : Tracked evicted s) (tenant : TenantId)
    (strategy : Strategy) :
    Tracked (evicted ++ (s.runStrategy tenant strategy).1.cancelled.map (·.task))
      (s.runStrategy tenant strategy).2 := by
  rw [sound.runStrategy_eq]
  intro t ht running
  rw [carryOutAll_tasks] at ht
  rcases tracked t ht running with known | passed
  · exact Or.inl (List.mem_append_left _ known)
  by_cases decided : ∃ d ∈ s.decisions tenant (s.asRegistered strategy), d.task.id = t.id
  · obtain ⟨d, hd, about⟩ := decided
    obtain ⟨x, hx, _, verdict⟩ := sound.decisions_back hd
    have same : x.task = d.task := by
      rcases verdict with rfl | ⟨_, rfl⟩ <;> rfl
    have held := mem_slotsFor.mpr ⟨hx, (congrArg Attempt.id same).trans about⟩
    rcases verdict with rfl | ⟨waiting, rfl⟩
    · refine Or.inl (List.mem_append_right _ ?_)
      rw [← ((sound.standing t ht).own x held).2.1]
      exact Admission.Summary.mem_cancelled.mpr ⟨_, hd, rfl, rfl⟩
    · rw [passed.2 x held] at waiting
      cases waiting
  · refine Or.inr ?_
    rw [Passed, carryOutAll_slotsFor fun d hd same => decided ⟨d, hd, same⟩]
    exact passed

theorem Tracked.replace {u : Task} (tracked : Tracked evicted s) (keeps : t.Keeps u)
    (only : OnlyTask t.id s s') (tasks : s'.tasks = (s.setTask u).tasks)
    (passed : u.state = .running → s'.Passed u) : Tracked evicted s' := by
  refine tracked.of_only only ?_
  intro v hv mine running
  rw [tasks] at hv
  rcases mem_setTask.mp hv with ⟨rfl, _⟩ | ⟨_, other⟩
  · exact Or.inr (passed running)
  · exact absurd (mine.trans keeps.id.symm) other

theorem insertTask_tracked {w : RegisteredWorkflow} {step : Step} {n : NewTask} {now : Instant}
    (sound : s.Sound) (tracked : Tracked evicted s) (free : ∀ p ∈ n.forced, p.1 ≠ .queued)
    (h : s.insertTask w step n now = .ok (t, s')) : Tracked evicted s' := by
  obtain ⟨created, result⟩ := insertTask_ok free h
  have idle : t.state ≠ .running := by
    rcases result with ⟨state, _⟩ | ⟨ended, _⟩
    · simp [state]
    · intro running
      rw [running] at ended
      cases ended
  rcases result with ⟨_, rfl⟩ | ⟨_, rfl⟩
  · refine tracked.of_only ((addTask_only created.id).trans enqueue_only) ?_
    intro v hv mine running
    rw [enqueue_tasks] at hv
    exact absurd (created.eq_of_id sound hv mine ▸ running) idle
  · refine tracked.of_only (addTask_only created.id) ?_
    intro v hv mine running
    exact absurd (created.eq_of_id sound hv mine ▸ running) idle

theorem Move.tracked {more : List Attempt} (move : Move s more s') (sound : s.Sound)
    (tracked : Tracked evicted s) : Tracked (evicted ++ more) s' := by
  cases move with
  | created known own free done =>
    rw [List.append_nil]
    exact insertTask_tracked sound tracked free done
  | @ended t u ht live keeps ends =>
    rw [List.append_nil]
    refine tracked.replace keeps (cleared_only keeps) rfl ?_
    intro running
    rw [running] at ends
    cases ends
  | @retried t u ht live keeps state =>
    have cleared : OnlyTask t.id s ((s.setTask u).release u.id) := cleared_only keeps
    rw [List.append_nil]
    refine tracked.replace keeps (cleared.trans (keeps.id ▸ enqueue_only)) (by rw [enqueue_tasks]; rfl) ?_
    intro running
    rw [running] at state
    cases state
  | @started t u ht keeps attempt state waits =>
    obtain ⟨q, hq, mine⟩ := waits
    have passed := ((sound.standing t ht).item q hq mine).2.2
    rw [List.append_nil]
    refine tracked.replace keeps (start_only keeps) rfl fun _ => ?_
    rw [Passed, keeps.strategies, keeps.id]
    exact passed
  | ran tenant strategy => exact runStrategy_tracked sound tracked tenant strategy
  | registered valid =>
    rw [List.append_nil]
    exact tracked.of_parts rfl rfl
  | refreshed tenant strategy =>
    rw [List.append_nil, refreshActive_eq]
    exact tracked.of_parts rfl rfl
  | other alike =>
    rw [List.append_nil]
    exact tracked.of_parts alike.tasks alike.slots

/-- The key that a task has for a strategy. -/
def keyFor (t : Task) (σ : StrategyId) : Option String :=
  t.concurrencyKeys[t.concurrencyStrategyIds.idxOf σ]?

/-- The tasks with the strategy whose current attempt waits in its queue or runs, and was not
evicted. -/
def occupants (s : Store) (evicted : List Attempt) (σ : StrategyId) : List Task :=
  s.tasks.filter fun t =>
    t.concurrencyStrategyIds.contains σ && !evicted.contains t.attempt &&
      (t.state == .running || s.queueItems.any (·.task == t.attempt))

theorem Passed.filled (passed : s.Passed t) (wired : s.Wired t) (standing : s.Standing t)
    (own : σ ∈ t.concurrencyStrategyIds) :
    ∃ x ∈ s.filledOf σ, x.task.id = t.id ∧ keyFor t σ = some x.key := by
  rw [← passed.1] at own
  obtain ⟨x, hx, rfl⟩ := List.mem_map.mp own
  obtain ⟨listed, mine⟩ := mem_slotsFor.mp hx
  obtain ⟨n, here⟩ := List.getElem?_of_mem hx
  obtain ⟨strategy, key, _⟩ := standing.covers wired n x here
  obtain ⟨bound, read⟩ := List.getElem?_eq_some_iff.mp strategy
  refine ⟨x, mem_filledOf.mpr ⟨listed, rfl, passed.2 x hx⟩, mine, ?_⟩
  rw [keyFor, ← read, wired.distinct.idxOf_getElem n bound, key]

/-- Each task at work holds a filled slot of its own, of the same key. -/
theorem occupants_subperm (sound : s.Sound) (tracked : Tracked evicted s) :
    ((s.occupants evicted σ).map (keyFor · σ)).Subperm
      (((s.filledOf σ).map (·.key)).map Option.some) := by
  have nodup : ((s.occupants evicted σ).map fun t => (t.id, keyFor t σ)).Nodup := by
    have ids : ((s.occupants evicted σ).map fun t : Task => t.id).Nodup :=
      (List.filter_sublist.map _).nodup
        (List.pairwise_map.mpr (sound.ordered.imp fun less => Int.ne_of_lt less))
    refine List.Nodup.of_map Prod.fst ?_
    rw [List.map_map]
    exact ids
  have sub : ((s.occupants evicted σ).map fun t => (t.id, keyFor t σ)).Subperm
      ((s.filledOf σ).map fun x => (x.task.id, some x.key)) := by
    refine List.subperm_of_subset nodup ?_
    intro pair hpair
    obtain ⟨t, ht, rfl⟩ := List.mem_map.mp hpair
    simp only [occupants, List.mem_filter, Bool.and_eq_true, Bool.or_eq_true, Bool.not_eq_true',
      List.contains_eq_mem, decide_eq_true_eq, decide_eq_false_iff_not, beq_iff_eq,
      List.any_eq_true] at ht
    obtain ⟨listed, ⟨own, spared⟩, work⟩ := ht
    have standing := sound.standing t listed
    have passed : s.Passed t := by
      rcases work with running | ⟨q, hq, same⟩
      · exact (tracked t listed running).resolve_left spared
      · exact (standing.item q hq (by rw [same]; rfl)).2.2
    obtain ⟨x, hx, mine, key⟩ := passed.filled (sound.wired t listed) standing own
    exact List.mem_map.mpr ⟨x, hx, by rw [mine, key]⟩
  have keys := subperm_map Prod.snd sub
  rw [List.map_map, List.map_map] at keys
  rw [List.map_map]
  exact keys

theorem Moves.within {s₀ : Store} (moves : Moves s₀ evicted s) (sound : s₀.Sound)
    (within : s₀.Within) (tracked : Tracked [] s₀) : s.Within ∧ Tracked evicted s := by
  induction moves with
  | none => exact ⟨within, tracked⟩
  | more before move ih =>
    obtain ⟨within, tracked⟩ := ih
    have sound := before.sound sound
    exact ⟨move.within sound within, move.tracked sound tracked⟩

/-- In every state that a store can be in, no strategy has more slots filled than it allows, and no
more attempts in queues or running than that, beside those it evicted. -/
theorem reachable_within_limits (reached : Reachable evicted s) :
    ∀ x ∈ s.strategies, x.Allows ((s.filledOf x.id).map (·.key)) ∧
      x.Allows ((s.occupants evicted x.id).map (keyFor · x.id)) := by
  obtain ⟨internalRetries, moves⟩ := reached.moves
  obtain ⟨within, tracked⟩ := moves.within (sound_empty internalRetries) (by intro x hx; cases hx)
    (by intro t ht; cases ht)
  intro x hx
  have sound := reached.sound
  have allows := within x hx
  exact ⟨allows, (allows.some (sound.registry.positive x hx)).subperm (occupants_subperm sound tracked)⟩

/-- The first limit of the workflow that runs one task of each user. -/
def oneOfUser : Strategy where
  id := 1
  tenantId := ⟨3⟩
  workflowId := ⟨1⟩
  stepId := ⟨2⟩
  policy := .cancelNewest
  expression := "input.user"
  maxConcurrency := 1
  isActive := true

def firstMail : Admission.Candidate := ⟨⟨1, 0⟩, "ann", 1, false, "default", [2]⟩

def secondMail : Admission.Candidate := ⟨⟨2, 0⟩, "ann", 2, false, "default", [2]⟩

theorem mailed_decisions :
    mailed.decisions ⟨3⟩ oneOfUser = [firstMail.letIn, secondMail.cancel] := by
  have candidates : ((mailed.slotsOf oneOfUser.id).filter (·.tenantId == ⟨3⟩)).map candidate =
      [firstMail, secondMail] := by rfl
  rw [decisions, candidates]
  cbv

theorem mailed_run : mailed.obey (.runStrategy ⟨3⟩ oneOfUser) =
    .ok ([⟨2, 0⟩], mailed.carryOutAll 1 [firstMail.letIn, secondMail.cancel]) := by
  have known : mailed.asRegistered oneOfUser = oneOfUser := by rfl
  rw [obey, mailed_reachable.sound.runStrategy_eq, known, mailed_decisions]
  rfl

theorem mailed_told : (mailed.runStrategy ⟨3⟩ oneOfUser).1 =
    { queued := [], cancelled := [⟨⟨2, 0⟩, "default"⟩], nextStrategyIds := [2] } := by
  have known : mailed.asRegistered oneOfUser = oneOfUser := by rfl
  rw [mailed_reachable.sound.runStrategy_eq, known, mailed_decisions]
  rfl

/-- Of two tasks of a user one is let in and one evicted. -/
theorem mailed_within_limits : ∃ s, Reachable [⟨2, 0⟩] s ∧ (s.filledOf 1).length = 1 ∧
    ∀ x ∈ s.strategies, x.Allows ((s.filledOf x.id).map (·.key)) ∧
      x.Allows ((s.occupants [⟨2, 0⟩] x.id).map (keyFor · x.id)) := by
  have reached := mailed_reachable.after _ mailed_run
  exact ⟨_, reached, rfl, reachable_within_limits reached⟩

end Store

end WorkflowEngine
