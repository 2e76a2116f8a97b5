import WorkflowEngine.Proofs.Store.Capacity
import WorkflowEngine.Proofs.Store.Tenants
import WorkflowEngine.Proofs.Store.Turnover
import WorkflowEngine.Proofs.System.Telling

/-!
What the scheduler of a partition is told. A request or a pass of a sweep that gives up slots or takes some
names their strategies in the notices that it sends. It is silent of one kind of slot: the one that a task
takes in its first strategy when it waits again after its attempt was evicted.
-/

namespace WorkflowEngine

open Fallible Store

/-! ### Notices -/

namespace NoticePayload

variable {σ : StrategyId} {ids : List StrategyId} {queue : String}

/-- Some of the notices names the strategy. -/
def Name (σ : StrategyId) (ps : List NoticePayload) : Prop := ∃ p ∈ ps, σ ∈ p.strategyIds

theorem mem_addStrategies {p : NoticePayload} :
    σ ∈ (addStrategies ids p).strategyIds ↔ σ ∈ p.strategyIds ∨ σ ∈ ids := by
  have along (acc : List StrategyId) :
      σ ∈ ids.foldl (fun acc id => if acc.contains id then acc else acc ++ [id]) acc ↔ σ ∈ acc ∨ σ ∈ ids := by
    induction ids generalizing acc with
    | nil => simp
    | cons id rest ih =>
      rw [List.foldl_cons, ih]
      split
      · rename_i before
        have known : id ∈ acc := by simpa using before
        rw [List.mem_cons]
        constructor
        · exact Or.imp_right Or.inr
        · rintro (old | rfl | later)
          · exact Or.inl old
          · exact Or.inl known
          · exact Or.inr later
      · simp [or_assoc]
  exact along p.strategyIds

theorem name_merge {ps : List NoticePayload} :
    Name σ (merge queue ids ps) ↔ σ ∈ ids ∨ Name σ ps := by
  induction ps with
  | nil => simp [merge, Name, mem_addStrategies]
  | cons p rest ih =>
    have rest' : Name σ (p :: rest) ↔ σ ∈ p.strategyIds ∨ Name σ rest := by simp [Name]
    unfold merge
    split
    · simp [Name, mem_addStrategies]
    · split
      · simp [Name, mem_addStrategies, or_comm, or_assoc]
      · rw [Name, List.exists_mem_cons_iff, ← Name, ih, rest']
        exact or_left_comm

/-- Gathered by queue, the notices name what the entries name. -/
theorem name_gather {entries : List (String × List StrategyId)} :
    Name σ (gather entries) ↔ ∃ e ∈ entries, σ ∈ e.2 := by
  have along (acc : List NoticePayload) :
      Name σ (entries.foldl (fun acc e => merge e.1 e.2 acc) acc) ↔ (∃ e ∈ entries, σ ∈ e.2) ∨ Name σ acc := by
    induction entries generalizing acc with
    | nil => simp
    | cons e rest ih =>
      rw [List.foldl_cons, ih, name_merge, List.exists_mem_cons_iff]
      exact or_left_comm.trans or_assoc.symm
  rw [gather, along]
  simp [Name]

end NoticePayload

/-- The message tells a scheduler that there is something new at the strategy. -/
def Message.Wakes (tenant : TenantId) (σ : StrategyId) (m : Message) : Prop :=
  ∃ payloads : List NoticePayload, (m = .created tenant payloads ∨ m = .released tenant payloads) ∧
    NoticePayload.Name σ payloads

/-- The partition whose scheduler serves the tenant. -/
def Store.partitionOf (s : Store) (tenant : TenantId) : Option String :=
  (s.tenant? tenant).bind (·.schedulerPartition)

variable {s s' : Store} {ids : IdSource} {now : Instant} {tenant : TenantId} {partition : String}
  {σ : StrategyId} {named : List StrategyId}

theorem Store.partitionOf_congr (tenants : s'.tenants = s.tenants) :
    s'.partitionOf tenant = s.partitionOf tenant := by
  simp only [partitionOf, tenant?, tenants]

/-- Among what is sent to the scheduler is a message that names the strategy. -/
def Wakes (tenant : TenantId) (partition : String) (σ : StrategyId) (ps : List Posting) : Prop :=
  ∃ m ∈ Posting.mail (.scheduler partition) ps, m.Wakes tenant σ

theorem Wakes.before {ps : List Posting} (wakes : Wakes tenant partition σ ps) (qs : List Posting) :
    Wakes tenant partition σ (ps ++ qs) := by
  obtain ⟨m, hm, names⟩ := wakes
  exact ⟨m, by rw [Posting.mail_append]; exact List.mem_append_left _ hm, names⟩

theorem Wakes.behind {qs : List Posting} (ps : List Posting) (wakes : Wakes tenant partition σ qs) :
    Wakes tenant partition σ (ps ++ qs) := by
  obtain ⟨m, hm, names⟩ := wakes
  exact ⟨m, by rw [Posting.mail_append]; exact List.mem_append_right _ hm, names⟩

section

variable (assigned : s.partitionOf tenant = some partition)
include assigned

theorem mem_notice {payloads : List NoticePayload} (message : List NoticePayload → Message)
    (some : payloads ≠ []) : message payloads ∈
      Posting.mail (.scheduler partition) (Posting.notice s tenant message payloads) := by
  obtain ⟨owner, there, given⟩ := Option.bind_eq_some_iff.mp assigned
  have filled : payloads.isEmpty = false := by simpa using some
  simp [Posting.notice, filled, there, given, Posting.mail, Posting.to?]

theorem wakes_created {entries : List (String × List StrategyId)} (named : ∃ e ∈ entries, σ ∈ e.2) :
    Wakes tenant partition σ (Posting.created s tenant entries) := by
  have names := NoticePayload.name_gather.mpr named
  obtain ⟨p, hp, -⟩ := id names
  exact ⟨_, mem_notice assigned _ (List.ne_nil_of_mem hp), _, Or.inl rfl, names⟩

theorem wakes_released {tasks : List ReleasedTask} (named : σ ∈ tasks.flatMap (·.concurrencyStrategyIds)) :
    Wakes tenant partition σ (Posting.released s tenant tasks) := by
  obtain ⟨t, ht, member⟩ := List.mem_flatMap.mp named
  have listed : (t.queue, t.concurrencyStrategyIds) ∈
      tasks.map fun t => (t.queue, t.concurrencyStrategyIds) := List.mem_map_of_mem ht
  have names := NoticePayload.name_gather.mpr ⟨_, listed, member⟩
  obtain ⟨p, hp, -⟩ := id names
  exact ⟨_, mem_notice assigned _ (List.ne_nil_of_mem hp), _, Or.inr rfl, names⟩

end

/-! ### Requests and sweeps -/

/-- The slots have changed as the notices tell the scheduler. -/
def Reports (tenant : TenantId) (partition : String) (s : Store) (x : Effect) : Prop :=
  ∃ named, Turnover tenant s x.store named ∧ ∀ σ ∈ named, Wakes tenant partition σ x.postings

theorem ofCreation_reports {named : List ExternalId} {c₀ c : Creation} (sound : c₀.store.Sound)
    (made : Creation.Creates tenant named c₀ c) (assigned' : c.store.partitionOf tenant = some partition) :
    Reports tenant partition c₀.store (Request.ofCreation c now tenant) := by
  refine ⟨_, creates_turnover sound made, fun σ h => ?_⟩
  obtain ⟨t, ht, member⟩ := List.mem_flatMap.mp h
  have listed : (t.queue, t.concurrencyStrategyIds) ∈ (c.tasks.filter (·.initialState == .queued)).map
      fun t => (t.queue, t.concurrencyStrategyIds) := List.mem_map_of_mem ht
  exact (((wakes_created assigned' ⟨_, listed, member⟩).behind _).before _).before _

section

variable (sound : s.Sound) (assigned : s.partitionOf tenant = some partition)
include assigned

theorem serveComplete_reports (payloads : List CompletedPayload) :
    Reports tenant partition s (Request.serveComplete s ids now tenant payloads) := by
  have assigned' : (s.complete tenant (payloads.map (·.attempt))).2.partitionOf tenant = some partition := by
    rw [Store.partitionOf_congr (s.complete_tenants tenant _), assigned]
  exact ⟨_, s.complete_turnover tenant _, fun σ h => (wakes_released assigned' h).behind _⟩

theorem serveCancel_reports (payloads : List CancelledPayload) :
    Reports tenant partition s (Request.serveCancel s ids now tenant payloads) := by
  have assigned' : (s.cancel tenant (payloads.map (·.attempt))).2.partitionOf tenant = some partition := by
    rw [Store.partitionOf_congr (s.cancel_tenants tenant _), assigned]
  exact ⟨_, s.cancel_turnover tenant _, fun σ h => (wakes_released assigned' h).behind _⟩

include sound

theorem failAndAnnounce_reports {failures : List Failure} {result : FailureResult}
    {postings : List Posting} {counts : List (Counter × Nat)}
    (done : failAndAnnounce s now tenant failures = .ok (result, s', postings, counts)) :
    Turnover tenant s s' result.strategies ∧ ∀ σ ∈ result.strategies, Wakes tenant partition σ postings := by
  obtain ⟨⟨r, s₁⟩, failed, done⟩ := bind_ok done
  cases done
  have assigned' : s'.partitionOf tenant = some partition := by
    rw [Store.partitionOf_congr (fail_tenants failed), assigned]
  refine ⟨fail_turnover sound failed, fun σ h => ?_⟩
  rcases List.mem_append.mp h with released | retried
  · exact ((wakes_released assigned' released).behind _).before _
  · obtain ⟨t, ht, member⟩ := List.mem_flatMap.mp retried
    have listed : (t.queue, t.concurrencyStrategyIds) ∈
        result.retried.map fun t => (t.queue, t.concurrencyStrategyIds) := List.mem_map_of_mem ht
    exact (wakes_created assigned' ⟨_, listed, member⟩).behind _

theorem serve_reports {r : Request} {x : Effect} (served : Request.serve s ids now tenant r = .ok x) :
    Reports tenant partition s x := by
  have assigned' : x.store.partitionOf tenant = some partition := by
    rw [Store.partitionOf_congr (serve_tenants served), assigned]
  cases r with
  | complete ps =>
    cases served
    exact serveComplete_reports assigned ps
  | cancel ps =>
    cases served
    exact serveCancel_reports assigned ps
  | fail ps =>
    obtain ⟨⟨result, s₁, postings, counts⟩, failed, served⟩ := bind_ok served
    cases served
    exact ⟨_, failAndAnnounce_reports sound assigned failed⟩
  | userEvents ps =>
    obtain ⟨c, created, served⟩ := bind_ok served
    cases served
    exact ofCreation_reports sound (triggerEvents_creates created) assigned'
  | trigger ps =>
    obtain ⟨c, created, served⟩ := bind_ok served
    cases served
    exact ofCreation_reports sound (triggerRuns_creates created) assigned'
  | internalEvents ps =>
    obtain ⟨c, created, served⟩ := bind_ok served
    cases served
    exact ofCreation_reports sound (matchOutcomes_creates created) assigned'

theorem sweep_reports {kind : Sweep} {limit : Nat} {x : SweepEffect}
    (swept : sweep kind s ids now tenant limit = .ok x) : Reports tenant partition s x.effect := by
  cases kind with
  | timeout =>
    change sweepTimeouts s ids now tenant limit = _ at swept
    unfold sweepTimeouts at swept
    split at swept
    · cases swept
      exact ⟨[], .same rfl rfl, List.forall_mem_nil _⟩
    · obtain ⟨⟨result, s₁, postings, counts⟩, failed, swept⟩ := bind_ok swept
      cases swept
      obtain ⟨turnover, wakes⟩ := failAndAnnounce_reports sound assigned failed
      exact ⟨_, turnover, fun σ h => ((wakes σ h).before _).before _⟩
  | reassign =>
    change sweepStranded s ids now tenant limit = _ at swept
    unfold sweepStranded at swept
    split at swept
    · cases swept
      exact ⟨[], .same rfl rfl, List.forall_mem_nil _⟩
    · obtain ⟨⟨result, s₁, postings, counts⟩, failed, swept⟩ := bind_ok swept
      cases swept
      obtain ⟨turnover, wakes⟩ := failAndAnnounce_reports sound assigned failed
      exact ⟨_, turnover, fun σ h => (wakes σ h).before _⟩

end

/-! ### Calls -/

namespace Engine

variable {e e' : Engine} {evicted : List Attempt}

/-- A handler is called for the tenant, or a sweep makes a pass over its tasks. -/
inductive Calls (e : Engine) (tenant : TenantId) : Engine → Prop where
  | handled (now : Instant) (kindName : String) (payloads : List ByteArray) :
      Calls e tenant (e.handleTasks now tenant kindName payloads).2
  | swept (now : Instant) (kind : Sweep) : Calls e tenant (e.sweepOnce now kind tenant).2

/-- A call does nothing to the store, or carries out an effect that reports what becomes of the slots. -/
theorem Calls.reports (calls : Calls e tenant e') (there : e.store = .sound s) (sound : s.Sound)
    (assigned : s.partitionOf tenant = some partition) :
    Idle e e' ∨ ∃ x, Performed e e' x ∧ Reports tenant partition s x := by
  cases calls with
  | handled now kindName payloads =>
    rcases e.handleTasks_cases now tenant kindName payloads with
      idle | ⟨kind, r, s₁, x, rfl, asked, store, served, done⟩
    · exact Or.inl idle
    · cases store.symm.trans there
      exact Or.inr ⟨x, done, serve_reports sound assigned served⟩
  | swept now kind =>
    rcases e.sweepOnce_cases now kind tenant with idle | ⟨s₁, x, store, swept, done⟩
    · exact Or.inl idle
    · cases store.symm.trans there
      exact Or.inr ⟨x.effect, done, sweep_reports sound assigned swept⟩

/-- Whatever a call does to the slots, the scheduler of the tenant is sent the strategies concerned; the one
exception is a slot that a task takes when it waits again after a strategy has evicted its attempt. -/
theorem slots_announced (reached : Reachable evicted s) (there : e.store = .sound s)
    (assigned : s.partitionOf tenant = some partition)
    (accepted : e.bus.isBlocked (QueueName.scheduler partition).text = false)
    (calls : Calls e tenant e') (there' : e'.store = .sound s') :
    ∃ ms, e'.bus.published (.scheduler partition) = e.bus.published (.scheduler partition) ++ ms ∧
      (∀ x ∈ s.slots, x ∉ s'.slots → ∃ m ∈ ms, m.Wakes tenant x.strategyId) ∧
      ∀ x ∈ s'.slots, x ∉ s.slots →
        (∃ m ∈ ms, m.Wakes tenant x.strategyId) ∨ s.Regains evicted tenant x := by
  rcases calls.reports there reached.sound assigned with idle | ⟨x, done, named, turnover, wakes⟩
  · cases there.symm.trans (idle.store s' there')
    exact ⟨[], by rw [idle.bus, List.append_nil], fun x hx gone => absurd hx gone,
      fun x hx new => absurd hx new⟩
  · cases done.store.symm.trans there'
    refine ⟨Posting.mail (.scheduler partition) x.postings, ?_, fun y hy gone => ?_, fun y hy new => ?_⟩
    · rw [(done.posted _).mail, accepted]
      rfl
    · exact wakes _ (turnover.lost y hy gone)
    · exact (turnover.taken y hy new).imp (wakes _) reached.lodged.regains

/-- Of two mails of a user the first has been let in, and the second evicted. -/
def admitted : Store :=
  (mailed.carryOutAll 1 [firstMail.letIn, secondMail.cancel]).registerTenant ⟨⟨3⟩, some "north"⟩

/-- The engine with that store. -/
def north : Engine := { store := .sound admitted }

/-- Both have waited too long. The scheduler hears of both strategies of the first mail; the second has no
slot to give up, and waits in the first strategy again. -/
theorem north_announced : admitted.heldBy 2 = [] ∧
    admitted.slots.map (fun x => (x.strategyId, x.task)) = [(1, ⟨1, 0⟩), (2, ⟨1, 0⟩)] ∧
    ∃ e' s' ms, e' = (north.sweepOnce ⟨300000000000⟩ .timeout ⟨3⟩).2 ∧ e'.store = .sound s' ∧
      s'.slots.map (fun x => (x.strategyId, x.task)) = [(1, ⟨1, 1⟩), (1, ⟨2, 1⟩)] ∧
      e'.bus.published (.scheduler "north") = ms ∧
      (∀ x ∈ admitted.slots, ∃ m ∈ ms, m.Wakes ⟨3⟩ x.strategyId) ∧
      ∀ x ∈ s'.slots, (∃ m ∈ ms, m.Wakes ⟨3⟩ x.strategyId) ∨ admitted.Regains [⟨2, 0⟩] ⟨3⟩ x := by
  have reached : Reachable [⟨2, 0⟩] admitted :=
    (mailed_reachable.after _ mailed_run).after (.registerTenant ⟨⟨3⟩, some "north"⟩) rfl
  have calls : Calls north ⟨3⟩ (north.sweepOnce ⟨300000000000⟩ .timeout ⟨3⟩).2 := .swept _ _
  obtain ⟨s', there', slots⟩ : ∃ s' : Store,
      (north.sweepOnce ⟨300000000000⟩ .timeout ⟨3⟩).2.store = .sound s' ∧
        s'.slots.map (fun x => (x.strategyId, x.task)) = [(1, ⟨1, 1⟩), (1, ⟨2, 1⟩)] := ⟨_, rfl, rfl⟩
  have before : ∀ x ∈ admitted.slots, x.task.retryCount = 0 := by decide
  have after : ∀ x ∈ s'.slots, x.task.retryCount = 1 := by
    intro x hx
    have listed := List.mem_map_of_mem (f := fun x : Slot => (x.strategyId, x.task)) hx
    rw [slots] at listed
    rcases List.mem_cons.mp listed with same | listed
    · rw [(Prod.mk.inj same).2]
    · rw [(Prod.mk.inj (List.mem_singleton.mp listed)).2]
  have apart {x y : Slot} (hx : x ∈ admitted.slots) (hy : y ∈ s'.slots) : x ≠ y := by
    rintro rfl
    exact absurd ((before x hx).symm.trans (after x hy)) (by decide)
  have assigned : admitted.partitionOf ⟨3⟩ = some "north" := rfl
  obtain ⟨ms, sent, lost, taken⟩ := slots_announced reached rfl assigned rfl calls there'
  refine ⟨List.mergeSort_nil, rfl, _, s', ms, rfl, there', slots, sent, ?_, ?_⟩
  · exact fun x hx => lost x hx fun kept => apart hx kept rfl
  · exact fun x hx => taken x hx fun old => apart old hx rfl

end Engine

end WorkflowEngine
