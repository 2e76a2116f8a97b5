import WorkflowEngine.Proofs.Store.Custody

/-!
What a run of a strategy did, and what it tells of that. Each decision is about one task, and how it was
decided is seen from the slots of the task and its place in the queue afterwards; no other task has
changed.
-/

namespace WorkflowEngine.Store

open Admission (Decision Summary)

variable {s s' s₁ s₂ : Store} {x y : Slot} {i : TaskId} {σ : StrategyId} {d : Decision}
  {ds : List Decision} {evicted : List Attempt}

/-! ### The places of one task -/

/-- The task has the same slots and the same place in the queue. -/
structure SamePlaces (i : TaskId) (s s' : Store) : Prop where
  slots : s'.slotsFor i = s.slotsFor i
  items : ∀ q : QueueItem, q.task.id = i → (q ∈ s'.queueItems ↔ q ∈ s.queueItems)

theorem SamePlaces.trans (first : SamePlaces i s s₁) (second : SamePlaces i s₁ s₂) :
    SamePlaces i s s₂ :=
  ⟨second.slots.trans first.slots, fun q mine => (second.items q mine).trans (first.items q mine)⟩

theorem carryOut_places (other : d.task.id ≠ i) : SamePlaces i s (s.carryOut σ d) :=
  ⟨carryOut_only.slots i other.symm, fun q mine => carryOut_only.items q (mine ▸ other.symm)⟩

theorem carryOutAll_places (other : ∀ d ∈ ds, d.task.id ≠ i) : SamePlaces i s (s.carryOutAll σ ds) := by
  induction ds generalizing s with
  | nil => exact ⟨rfl, fun _ _ => Iff.rfl⟩
  | cons d rest ih =>
    obtain ⟨first, others⟩ := List.forall_mem_cons.mp other
    exact (carryOut_places first).trans (ih others)

/-! ### One decision -/

/-- What has become of the task that a decision was about. -/
inductive Carried (σ : StrategyId) (s : Store) (d : Decision) (s' : Store) : Prop
  | evicted {x : Slot} (held : x ∈ s.slotsFor d.task.id) (here : x.strategyId = σ)
      (about : x.task = d.task) (verdict : d.verdict = .cancelled) (out : s'.Placeless d.task.id)
  | queued {x : Slot} {before : List Slot} (was : s.slotsFor d.task.id = before ++ [x])
      (here : x.strategyId = σ) (about : x.task = d.task) (waiting : x.filled = false)
      (absent : ∀ q ∈ s.queueItems, q.task.id ≠ d.task.id) (verdict : d.verdict = .queued)
      (slots : s'.slotsFor d.task.id = before ++ [{ x with filled := true }])
      (item : ⟨x.tenantId, d.task, d.queue⟩ ∈ s'.queueItems)
  | deferred {x y : Slot} {before : List Slot} (was : s.slotsFor d.task.id = before ++ [x])
      (here : x.strategyId = σ) (about : x.task = d.task) (waiting : x.filled = false)
      (absent : ∀ q ∈ s'.queueItems, q.task.id ≠ d.task.id) (verdict : d.verdict = .deferred y.strategyId)
      (slots : s'.slotsFor d.task.id = before ++ [{ x with filled := true }, y])
      (next : x.next = y.strategyId :: y.next) (new : y.filled = false ∧ y.task = d.task)
      (fresh : ∀ z ∈ s.slotsFor d.task.id, z.strategyId ≠ y.strategyId)

/-- The attempt holds a slot in the strategy. -/
def HasSlot (s : Store) (σ : StrategyId) (a : Attempt) : Prop :=
  ∃ x ∈ s.slots, x.strategyId = σ ∧ x.task = a

theorem carryOut_carried (sound : s.Sound) (backs : s.Backs σ d) : Carried σ s d (s.carryOut σ d) := by
  obtain ⟨x, hx, rfl, verdict⟩ := backs
  obtain ⟨t, ht, tenant, attempt, -⟩ := sound.slot_current hx
  have id : x.task.id = t.id := by rw [← attempt]; rfl
  have held : x ∈ s.slotsFor t.id := mem_slotsFor.mpr ⟨hx, id⟩
  rcases verdict with rfl | ⟨waiting, rfl⟩
  · exact .evicted (mem_slotsFor.mpr ⟨hx, rfl⟩) rfl rfl rfl release_placeless
  have wired := sound.wired t ht
  have queue := ((sound.standing t ht).own x held).2.2
  obtain ⟨before, waits⟩ := (sound.standing t ht).waits wired held waiting
  have was : s.slotsFor x.task.id = before ++ [x] := by rw [id, waits.slots]
  have absent : ∀ q ∈ s.queueItems, q.task.id ≠ x.task.id := by
    rw [id]
    exact waits.items
  obtain ⟨last, carried⟩ | ⟨next, rest, key, more, -, carried⟩ := sound.letIn_eq ht held waits
  · have verdict : (candidate x).letIn.verdict = .queued := by
      simp [Admission.Candidate.letIn, candidate, last]
    refine .queued was rfl rfl waiting absent verdict ?_ ?_
    · rw [carried]
      exact (congrArg _ id).trans waits.fill
    · rw [carried, attempt, tenant, ← queue]
      exact Ascending.mem_put_self
  · have verdict : (candidate x).letIn.verdict = .deferred next := by
      simp [Admission.Candidate.letIn, candidate, more]
    have fresh := waits.next_fresh wired more
    have slots := insertSlot_slotsFor t.tenantId t.attempt key t.queue rest fresh
    rw [show t.attempt.id = t.id from rfl, waits.fill, List.append_assoc] at slots
    let given := newSlot (s.fillSlot x.strategyId t.id) t.tenantId next t.attempt key t.queue rest
    refine .deferred (y := given) was rfl rfl waiting ?_ verdict ?_ more ⟨rfl, attempt⟩ ?_
    · rw [carried]
      exact absent
    · rw [carried]
      exact (congrArg _ id).trans slots
    · intro z hz
      rw [waits.fill] at fresh
      rw [show (candidate x).letIn.task.id = x.task.id from rfl, was] at hz
      rcases List.mem_append.mp hz with earlier | last
      · exact fresh z (List.mem_append_left _ earlier)
      · rw [List.mem_singleton.mp last]
        exact fresh { x with filled := true } (List.mem_append_right _ List.mem_cons_self)

/-- An attempt that was queued was not in the queue. -/
theorem Carried.of_queued (carried : Carried σ s d s') (verdict : d.verdict = .queued) :
    (∀ q ∈ s.queueItems, q.task.id ≠ d.task.id) ∧
      (∃ tenant, ⟨tenant, d.task, d.queue⟩ ∈ s'.queueItems) ∧
      ∃ x ∈ s'.slots, x.strategyId = σ ∧ x.task = d.task ∧ x.filled = true := by
  cases carried with
  | @queued x before _ here about _ absent _ slots item =>
    have held : { x with filled := true } ∈ s'.slotsFor d.task.id := by
      rw [slots]
      exact List.mem_append_right _ List.mem_cons_self
    exact ⟨absent, ⟨_, item⟩, _, (mem_slotsFor.mp held).1, here, about, rfl⟩
  | evicted _ _ _ other | deferred _ _ _ _ _ other =>
    rw [verdict] at other
    cases other

theorem Carried.of_cancelled (carried : Carried σ s d s') (verdict : d.verdict = .cancelled) :
    s.HasSlot σ d.task ∧ s'.Placeless d.task.id := by
  cases carried with
  | evicted held here about _ out => exact ⟨⟨_, (mem_slotsFor.mp held).1, here, about⟩, out⟩
  | queued _ _ _ _ _ other | deferred _ _ _ _ _ other =>
    rw [verdict] at other
    cases other

/-- An attempt that was deferred had no slot in the strategy it comes to. -/
theorem Carried.of_deferred {τ : StrategyId} (carried : Carried σ s d s')
    (verdict : d.verdict = .deferred τ) :
    ∃ y ∈ s'.slots, y.strategyId = τ ∧ ¬ s.HasSlot τ y.task := by
  cases carried with
  | @deferred x y before _ _ _ _ _ same slots _ new fresh =>
    rw [verdict] at same
    cases same
    have held : y ∈ s'.slotsFor d.task.id := by
      rw [slots]
      exact List.mem_append_right _ (List.mem_cons_of_mem _ List.mem_cons_self)
    refine ⟨y, (mem_slotsFor.mp held).1, rfl, ?_⟩
    rintro ⟨z, hz, strategy, task⟩
    exact fresh z (mem_slotsFor.mpr ⟨hz, by rw [task, new.2]⟩) strategy
  | evicted _ _ _ other | queued _ _ _ _ _ other =>
    rw [verdict] at other
    cases other

/-- Of a task that was decided about, only what was queued is in the queue. -/
theorem Carried.item {q : QueueItem} (carried : Carried σ s d s') (hq : q ∈ s'.queueItems)
    (mine : q.task.id = d.task.id) : d.verdict = .queued := by
  cases carried with
  | queued _ _ _ _ _ verdict => exact verdict
  | evicted _ _ _ _ out => exact absurd mine (out.items q hq)
  | deferred _ _ _ _ absent => exact absurd mine (absent q hq)

theorem Carried.before (carried : Carried σ s₁ d s') (same : SamePlaces d.task.id s s₁) :
    Carried σ s d s' := by
  cases carried with
  | evicted held here about verdict out =>
    rw [same.slots] at held
    exact .evicted held here about verdict out
  | queued was here about waiting absent verdict slots item =>
    rw [same.slots] at was
    refine .queued was here about waiting (fun q hq mine => ?_) verdict slots item
    exact absent q ((same.items q mine).mpr hq) mine
  | deferred was here about waiting absent verdict slots next new fresh =>
    rw [same.slots] at was fresh
    exact .deferred was here about waiting absent verdict slots next new fresh

theorem Carried.after (carried : Carried σ s d s₁) (same : SamePlaces d.task.id s₁ s') :
    Carried σ s d s' := by
  cases carried with
  | evicted held here about verdict out =>
    refine .evicted held here about verdict ⟨same.slots.trans out.slots, fun q hq mine => ?_⟩
    exact out.items q ((same.items q mine).mp hq) mine
  | queued was here about waiting absent verdict slots item =>
    exact .queued was here about waiting absent verdict (same.slots.trans slots)
      ((same.items _ rfl).mpr item)
  | deferred was here about waiting absent verdict slots next new fresh =>
    refine .deferred was here about waiting (fun q hq mine => ?_) verdict (same.slots.trans slots) next
      new fresh
    exact absent q ((same.items q mine).mp hq) mine

theorem carryOutAll_carried (sound : s.Sound) (backs : ∀ d ∈ ds, s.Backs σ d)
    (once : (ds.map (·.task.id)).Nodup) : ∀ d ∈ ds, Carried σ s d (s.carryOutAll σ ds) := by
  induction ds generalizing s with
  | nil => exact List.forall_mem_nil _
  | cons d rest ih =>
    obtain ⟨fresh, once⟩ := List.nodup_cons.mp once
    obtain ⟨backed, backs⟩ := List.forall_mem_cons.mp backs
    have other : ∀ d' ∈ rest, d'.task.id ≠ d.task.id := fun d' hd' same =>
      fresh (List.mem_map.mpr ⟨d', hd', same⟩)
    refine List.forall_mem_cons.mpr ⟨?_, fun d' hd' => ?_⟩
    · exact (carryOut_carried sound backed).after (carryOutAll_places other)
    · have later := ih (carryOut_sound sound backed)
        (fun d' hd' => (backs d' hd').of_only carryOut_only (other d' hd')) once
      exact (later d' hd').before (carryOut_places (other d' hd').symm)

/-! ### A run -/

/-- All decisions were carried out, and nothing else was done. -/
structure Concluded (σ : StrategyId) (ds : List Decision) (s s' : Store) : Prop where
  tasks : s'.tasks = s.tasks
  once : (ds.map (·.task.id)).Nodup
  each : ∀ d ∈ ds, Carried σ s d s'
  others : ∀ i, (∀ d ∈ ds, d.task.id ≠ i) → SamePlaces i s s'

theorem Sound.run_concluded (sound : s.Sound) (tenant : TenantId) (strategy : Strategy) :
    Concluded strategy.id (s.decisions tenant (s.asRegistered strategy)) s
      (s.runStrategy tenant strategy).2 := by
  rw [sound.runStrategy_eq]
  have once := sound.decisions_nodup tenant (s.asRegistered strategy)
  exact ⟨carryOutAll_tasks, once, carryOutAll_carried sound (sound.decisions_backed _ _) once,
    fun i => carryOutAll_places⟩

/-- All slots of a task are of the same attempt. -/
theorem Sound.slot_attempt (sound : s.Sound) (hx : x ∈ s.slots) (hy : y ∈ s.slots)
    (same : x.task.id = y.task.id) : x.task = y.task := by
  obtain ⟨t, ht, owner⟩ := sound.slotOwner x hx
  have standing := sound.standing t ht
  rw [(standing.own x (mem_slotsFor.mpr ⟨hx, owner.symm⟩)).2.1,
    (standing.own y (mem_slotsFor.mpr ⟨hy, (owner.trans same).symm⟩)).2.1]

/-- The slot was given to an attempt that the strategy let in, as the next one on its way. -/
def Follows (s : Store) (σ : StrategyId) (y : Slot) : Prop :=
  y.filled = false ∧ ∃ x ∈ s.slots, x.strategyId = σ ∧ x.task = y.task ∧ x.filled = false ∧
    x.next = y.strategyId :: y.next

namespace Concluded

variable (concluded : Concluded σ ds s s')
include concluded

/-- A slot is still there, or was cancelled with its attempt, or has been filled. -/
theorem slot_before (sound : s.Sound) (hx : x ∈ s.slots) :
    x ∈ s'.slots ∨ (∃ d ∈ ds, d.verdict = .cancelled ∧ d.task = x.task) ∨
      (x.strategyId = σ ∧ { x with filled := true } ∈ s'.slots) := by
  by_cases decided : ∃ d ∈ ds, d.task.id = x.task.id
  · obtain ⟨d, hd, same⟩ := decided
    have held : x ∈ s.slotsFor d.task.id := mem_slotsFor.mpr ⟨hx, same.symm⟩
    cases concluded.each d hd with
    | evicted held' _ about verdict _ =>
      refine Or.inr (Or.inl ⟨d, hd, verdict, about.symm.trans ?_⟩)
      obtain ⟨listed, mine⟩ := mem_slotsFor.mp held'
      exact sound.slot_attempt listed hx (mine.trans same)
    | queued was here _ _ _ _ slots _ | deferred was here _ _ _ _ slots _ _ _ =>
      have now {z : Slot} (hz : z ∈ s'.slotsFor d.task.id) : z ∈ s'.slots := (mem_slotsFor.mp hz).1
      rw [slots] at now
      rw [was] at held
      rcases List.mem_append.mp held with earlier | last
      · exact Or.inl (now (List.mem_append_left _ earlier))
      · obtain rfl := List.mem_singleton.mp last
        exact Or.inr (Or.inr ⟨here, now (List.mem_append_right _ List.mem_cons_self)⟩)
  · have kept := (concluded.others x.task.id fun d hd same => decided ⟨d, hd, same⟩).slots
    have held := mem_slotsFor.mpr ⟨hx, rfl⟩
    rw [← kept] at held
    exact Or.inl (mem_slotsFor.mp held).1

/-- A slot was there before, or has been filled, or was given to an attempt that was let in. -/
theorem slot_after (hy : y ∈ s'.slots) :
    (y ∈ s.slots ∨ ∃ x ∈ s.slots, x.strategyId = σ ∧ y = { x with filled := true }) ∨
      ∃ d ∈ ds, d.verdict = .deferred y.strategyId ∧ s.Follows σ y ∧
        ¬ s.HasSlot y.strategyId y.task := by
  by_cases decided : ∃ d ∈ ds, d.task.id = y.task.id
  · obtain ⟨d, hd, same⟩ := decided
    have held : y ∈ s'.slotsFor d.task.id := mem_slotsFor.mpr ⟨hy, same.symm⟩
    have old {z : Slot} (hz : z ∈ s.slotsFor d.task.id) : z ∈ s.slots := (mem_slotsFor.mp hz).1
    cases concluded.each d hd with
    | evicted _ _ _ _ out =>
      rw [out.slots] at held
      cases held
    | @queued x before was here _ _ _ _ slots _ =>
      rw [was] at old
      rw [slots] at held
      refine Or.inl ((List.mem_append.mp held).imp ?_ ?_)
      · exact fun earlier => old (List.mem_append_left _ earlier)
      · intro last
        exact ⟨x, old (List.mem_append_right _ List.mem_cons_self), here, List.mem_singleton.mp last⟩
    | @deferred x z before was here about waiting _ verdict slots next new fresh =>
      rw [was] at old
      have listed : x ∈ s.slots := old (List.mem_append_right _ List.mem_cons_self)
      rw [slots] at held
      rcases List.mem_append.mp held with earlier | last
      · exact Or.inl (Or.inl (old (List.mem_append_left _ earlier)))
      rcases List.mem_cons.mp last with rfl | given
      · exact Or.inl (Or.inr ⟨x, listed, here, rfl⟩)
      obtain rfl := List.mem_singleton.mp given
      have follows : s.Follows σ y :=
        ⟨new.1, x, listed, here, about.trans new.2.symm, waiting, next⟩
      refine Or.inr ⟨d, hd, verdict, follows, ?_⟩
      rintro ⟨v, hv, strategy, task⟩
      exact fresh v (mem_slotsFor.mpr ⟨hv, by rw [task, new.2]⟩) strategy
  · have kept := (concluded.others y.task.id fun d hd same => decided ⟨d, hd, same⟩).slots
    have held := mem_slotsFor.mpr ⟨hy, rfl⟩
    rw [kept] at held
    exact Or.inl (Or.inl (mem_slotsFor.mp held).1)

end Concluded

/-! ### What is told -/

/-- What a summary tells of a run is what the run did to the store. -/
structure Committed (σ : StrategyId) (s s' : Store) (r : Summary) : Prop where
  tasks : s'.tasks = s.tasks
  /-- Those queued came to the queue. -/
  queued : ∀ a, a ∈ r.queued.map (·.task) ↔ ¬ s.InQueue a ∧ s'.InQueue a
  queue : ∀ p ∈ r.queued, ∃ q ∈ s'.queueItems, q.task = p.task ∧ q.queue = p.queue
  letIn : ∀ p ∈ r.queued, ∃ x ∈ s'.slots, x.strategyId = σ ∧ x.task = p.task ∧ x.filled = true
  /-- Those cancelled lost their slot in the strategy. -/
  cancelled : ∀ a, a ∈ r.cancelled.map (·.task) ↔ s.HasSlot σ a ∧ ¬ s'.HasSlot σ a
  out : ∀ p ∈ r.cancelled, s'.Placeless p.task.id
  /-- Of nobody two things are told. -/
  once : ((r.queued ++ r.cancelled).map (·.task)).Nodup
  /-- The strategies told of gained a slot. -/
  gained : ∀ τ, τ ∈ r.nextStrategyIds ↔ ∃ y ∈ s'.slots, y.strategyId = τ ∧ ¬ s.HasSlot τ y.task
  waiting : ∀ y ∈ s'.slots, ¬ s.HasSlot y.strategyId y.task → y.filled = false
  nextOnce : r.nextStrategyIds.Nodup
  /-- Slots of other strategies go only with an attempt that is cancelled. -/
  kept : ∀ x ∈ s.slots, x.strategyId ≠ σ → x.task ∉ r.cancelled.map (·.task) → x ∈ s'.slots
  /-- And come only to an attempt that was let in. -/
  others : ∀ y ∈ s'.slots, y.strategyId ≠ σ → y ∈ s.slots ∨ s.Follows σ y

namespace Concluded

variable (concluded : Concluded σ ds s s') (sound : s.Sound) (after : s'.Sound)
include concluded

include after in
theorem queued_iff {a : Attempt} :
    (∃ d ∈ ds, d.verdict = .queued ∧ d.task = a) ↔ ¬ s.InQueue a ∧ s'.InQueue a := by
  constructor
  · rintro ⟨d, hd, verdict, rfl⟩
    obtain ⟨absent, ⟨tenant, item⟩, -⟩ := (concluded.each d hd).of_queued verdict
    exact ⟨fun ⟨q, hq, mine⟩ => absent q hq (congrArg Attempt.id mine), _, item, rfl⟩
  · rintro ⟨absent, q, hq, rfl⟩
    by_cases decided : ∃ d ∈ ds, d.task.id = q.task.id
    · obtain ⟨d, hd, same⟩ := decided
      have verdict := (concluded.each d hd).item hq same.symm
      obtain ⟨-, ⟨tenant, item⟩, -⟩ := (concluded.each d hd).of_queued verdict
      -- a task has one place in the queue
      obtain ⟨t, ht, owner⟩ := after.itemOwner q hq
      have one := ((after.standing t ht).item q hq owner.symm).1
      have other := ((after.standing t ht).item _ item (same.trans owner.symm)).1
      exact ⟨d, hd, verdict, congrArg QueueItem.task (other.trans one.symm)⟩
    · have same := concluded.others q.task.id fun d hd same => decided ⟨d, hd, same⟩
      exact absurd ⟨q, (same.items q rfl).mp hq, rfl⟩ absent

include sound in
theorem cancelled_iff {a : Attempt} :
    (∃ d ∈ ds, d.verdict = .cancelled ∧ d.task = a) ↔ s.HasSlot σ a ∧ ¬ s'.HasSlot σ a := by
  constructor
  · rintro ⟨d, hd, verdict, rfl⟩
    obtain ⟨held, out⟩ := (concluded.each d hd).of_cancelled verdict
    refine ⟨held, ?_⟩
    rintro ⟨x, hx, -, mine⟩
    have none := out.slots ▸ mem_slotsFor.mpr ⟨hx, congrArg Attempt.id mine⟩
    cases none
  · rintro ⟨⟨x, hx, here, rfl⟩, lost⟩
    obtain kept | cancelled | ⟨-, filled⟩ := concluded.slot_before sound hx
    · exact absurd ⟨x, kept, here, rfl⟩ lost
    · exact cancelled
    · exact absurd ⟨_, filled, here, rfl⟩ lost

theorem gained_by (hy : y ∈ s'.slots) (gained : ¬ s.HasSlot y.strategyId y.task) :
    s.Follows σ y ∧ ∃ d ∈ ds, d.verdict = .deferred y.strategyId := by
  obtain (old | ⟨x, hx, -, rfl⟩) | ⟨d, hd, verdict, follows, -⟩ := concluded.slot_after hy
  · exact absurd ⟨y, old, rfl, rfl⟩ gained
  · exact absurd ⟨x, hx, rfl, rfl⟩ gained
  · exact ⟨follows, d, hd, verdict⟩

include sound after in
theorem committed : Committed σ s s' (.ofDecisions ds) := by
  have cancelled {a : Attempt} : a ∈ (Summary.ofDecisions ds).cancelled.map (·.task) ↔
      s.HasSlot σ a ∧ ¬ s'.HasSlot σ a :=
    Summary.mem_cancelled.trans (concluded.cancelled_iff sound)
  refine ⟨concluded.tasks, fun a => Summary.mem_queued.trans (concluded.queued_iff after), ?_, ?_,
    fun a => cancelled, ?_, ?_, ?_, ?_, Summary.nextStrategyIds_nodup, ?_, ?_⟩
  · intro p hp
    rw [Summary.ofDecisions_queued] at hp
    obtain ⟨d, hd, verdict, rfl⟩ := Summary.mem_placed.mp hp
    obtain ⟨-, ⟨tenant, item⟩, -⟩ := (concluded.each d hd).of_queued verdict
    exact ⟨_, item, rfl, rfl⟩
  · intro p hp
    rw [Summary.ofDecisions_queued] at hp
    obtain ⟨d, hd, verdict, rfl⟩ := Summary.mem_placed.mp hp
    exact ((concluded.each d hd).of_queued verdict).2.2
  · intro p hp
    rw [Summary.ofDecisions_cancelled] at hp
    obtain ⟨d, hd, verdict, rfl⟩ := Summary.mem_placed.mp hp
    exact ((concluded.each d hd).of_cancelled verdict).2
  · exact Summary.ofDecisions_once concluded.once
  · intro τ
    rw [Summary.mem_nextStrategyIds]
    constructor
    · rintro ⟨d, hd, verdict⟩
      exact (concluded.each d hd).of_deferred verdict
    · rintro ⟨y, hy, rfl, gained⟩
      exact (concluded.gained_by hy gained).2
  · intro y hy gained
    exact (concluded.gained_by hy gained).1.1
  · intro x hx other spared
    obtain kept | gone | ⟨here, -⟩ := concluded.slot_before sound hx
    · exact kept
    · exact absurd (Summary.mem_cancelled.mpr gone) spared
    · exact absurd here other
  · intro y hy other
    obtain (old | ⟨x, -, here, rfl⟩) | ⟨-, -, -, follows, -⟩ := concluded.slot_after hy
    · exact Or.inl old
    · exact absurd here other
    · exact Or.inr follows

end Concluded

/-- A run of a strategy reports exactly what it committed. -/
theorem runStrategy_committed (reached : Reachable evicted s) (tenant : TenantId) (strategy : Strategy) :
    Committed strategy.id s (s.runStrategy tenant strategy).2 (s.runStrategy tenant strategy).1 := by
  have sound := reached.sound
  have committed := (sound.run_concluded tenant strategy).committed sound
    (runStrategy_sound sound tenant strategy)
  rw [sound.runStrategy_eq] at committed ⊢
  exact committed

/-- Of two mails of a user one goes on to the next limit, the other is cancelled. -/
theorem mailed_committed : Reachable [] mailed ∧
    (mailed.runStrategy ⟨3⟩ oneOfUser).1 =
      { queued := [], cancelled := [⟨⟨2, 0⟩, "default"⟩], nextStrategyIds := [2] } ∧
    Committed 1 mailed (mailed.runStrategy ⟨3⟩ oneOfUser).2 (mailed.runStrategy ⟨3⟩ oneOfUser).1 :=
  ⟨mailed_reachable, mailed_told, runStrategy_committed mailed_reachable ⟨3⟩ oneOfUser⟩

end WorkflowEngine.Store
