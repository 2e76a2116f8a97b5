import WorkflowEngine.Engine.ReadModel
import WorkflowEngine.Proofs.ReadModel.Drain

/-!
Reconciliation at a clock that stands still. The passes of each tenant come to an end, as a pass that
reaches a limit leaves less to do; the last of them leaves nothing due of the tenant, and the passes of
other tenants bring nothing that is.
-/

namespace WorkflowEngine.Engine

open ReadModel

variable {e e' e'' : Engine} {m m' : ReadModel} {tenant : TenantId} {now : Instant} {t : Table}

/-! ### Passes -/

/-- What passes leave alone of the engine. -/
structure Follows (e e' : Engine) : Prop where
  settings : e'.settings = e.settings
  store : e'.store = e.store
  shares : e'.shares = e.shares
  failing : e'.failing = e.failing

theorem Follows.refl (e : Engine) : e.Follows e := ⟨rfl, rfl, rfl, rfl⟩

theorem Follows.trans (first : e.Follows e') (second : e'.Follows e'') : e.Follows e'' :=
  ⟨second.settings.trans first.settings, second.store.trans first.store,
    second.shares.trans first.shares, second.failing.trans first.failing⟩

/-- Nothing fails in the engine, and it works on all shares of the read model. -/
structure Working (e : Engine) (m : ReadModel) : Prop where
  model : e.readModel = .sound m
  fine : e.failing = []
  dealt : m.Dealt
  shares : e.shares = m.partitionCount
  limit : 0 < e.settings.reconcileBatchLimit

theorem Working.sweep {shares : List Nat} {taken : Nat} {full : Bool} (working : e.Working m)
    (sweeps : m.Sweeps tenant now t shares taken full m') (follows : e.Follows e')
    (model : e'.readModel = .sound m') : e'.Working m' :=
  ⟨model, follows.failing.trans working.fine, sweeps.dealt,
    (follows.shares.trans working.shares).trans sweeps.partitions.symm,
    follows.settings.symm ▸ working.limit⟩

theorem foldShare_sweeps (working : e.Working m) (roomy : Roomy now) (kind : t = .tasks ∨ t = .dags)
    (tenant : TenantId) (share : Nat) : ∃ n m' e', e.foldShare now tenant t share = (.ok n, e') ∧
      e.Follows e' ∧ e'.readModel = .sound m' ∧
        m.Sweeps tenant now t [share] n (decide (e.settings.reconcileBatchLimit ≤ n)) m' := by
  rcases kind with rfl | rfl
  · obtain ⟨n, m', done⟩ := foldTasks_total roomy m tenant share e.settings.reconcileBatchLimit
    refine ⟨n, m', { e with readModel := .sound m' }, ?_, ⟨rfl, rfl, rfl, rfl⟩, rfl,
      foldTasks_sweeps working.dealt done⟩
    simp [foldShare, writeModel, working.fine, working.model, Guarded.write, done]
  · obtain ⟨n, m', done⟩ := foldDags_total roomy m tenant share e.settings.reconcileBatchLimit
    refine ⟨n, m', { e with readModel := .sound m' }, ?_, ⟨rfl, rfl, rfl, rfl⟩, rfl,
      foldDags_sweeps working.dealt done⟩
    simp [foldShare, writeModel, working.fine, working.model, Guarded.write, done]

theorem foldShares_sweeps (working : e.Working m) (roomy : Roomy now) (kind : t = .tasks ∨ t = .dags)
    (tenant : TenantId) (shares : List Nat) : ∃ (ns : List Nat) (taken : Nat) (m' : ReadModel) (e' : Engine),
      e.foldShares now tenant t shares = (ns.map .ok, e') ∧ e.Follows e' ∧ e'.readModel = .sound m' ∧
        m.Sweeps tenant now t shares taken (ns.any (e.settings.reconcileBatchLimit ≤ ·)) m' ∧
        ∀ n ∈ ns, n ≤ taken := by
  induction shares generalizing e m with
  | nil => exact ⟨[], 0, m, e, rfl, .refl e, working.model, .refl working.dealt t, List.forall_mem_nil _⟩
  | cons share rest ih =>
    obtain ⟨n, m₁, e₁, done, follows, model, first⟩ := foldShare_sweeps working roomy kind tenant share
    obtain ⟨ns, taken, m', e', later, follows', model', others, fewer⟩ :=
      ih (working.sweep first follows model)
    rw [follows.settings] at others
    refine ⟨n :: ns, n + taken, m', e', ?_, follows.trans follows', model', first.trans others, ?_⟩
    · simp only [foldShares, done, later]
      rfl
    · exact List.forall_mem_cons.mpr ⟨Nat.le_add_right n taken,
        fun k member => (fewer k member).trans (Nat.le_add_left taken n)⟩

theorem foldTable_sweeps (working : e.Working m) (roomy : Roomy now) (kind : t = .tasks ∨ t = .dags)
    (tenant : TenantId) : ∃ full taken m' e', e.foldTable now tenant t = (.ok full, e') ∧
      e.Follows e' ∧ e'.readModel = .sound m' ∧
        m.Sweeps tenant now t (List.range e.shares) taken full m' ∧ (full = true → 0 < taken) := by
  obtain ⟨ns, taken, m', e', done, follows, model, sweeps, fewer⟩ :=
    foldShares_sweeps working roomy kind tenant (List.range e.shares)
  have calm (f : Except Fault Nat → Option String) (fine : ∀ n, f (.ok n) = none) :
      (ns.map Except.ok).findSome? f = none := by
    simp [fine]
  have sizes (f : Except Fault Nat → Option Nat) (sized : ∀ n, f (.ok n) = some n) :
      (ns.map Except.ok).filterMap f = ns := by
    rw [List.filterMap_map, show f ∘ Except.ok = some from funext sized, List.filterMap_some]
  have faults : (ns.map Except.ok : List (Except Fault Nat)).filterMap faultOf? = [] := by
    simp [List.filterMap_map, faultOf?]
  let metrics := ns.foldl (fun ms n => ms.addBatch t n
    (decide (e.settings.reconcileBatchLimit ≤ n))) e'.metrics
  refine ⟨ns.any (e.settings.reconcileBatchLimit ≤ ·), taken, m', { e' with metrics }, ?_,
    ⟨follows.settings, follows.store, follows.shares, follows.failing⟩, model, sweeps, fun full => ?_⟩
  · simp only [foldTable, done]
    rw [calm _ fun _ => rfl, faults, sizes _ fun _ => rfl, follows.settings]
    rfl
  · obtain ⟨n, member, reached⟩ := List.any_eq_true.mp full
    exact working.limit.trans_le ((of_decide_eq_true reached).trans (fewer n member))

/-- A pass of a tenant that reaches a limit leaves less to do, and one that reaches none leaves nothing
due. -/
theorem reconcileTenant_pass (working : e.Working m) (roomy : Roomy now) (tenant : TenantId) :
    ∃ full m' e', e.reconcileTenant now tenant = (.ok full, e') ∧ e.Follows e' ∧ e'.Working m' ∧
      (full = true → m'.load tenant now < m.load tenant now) ∧
      (full = false → ∀ t, m'.dueShares tenant now t = []) ∧
      (∀ other, other ≠ tenant → ∀ t, m'.dueShares other now t = m.dueShares other now t) ∧
      ∀ q ∈ m'.pendingDags, q.2.requeueRetries = 0 → now < q.2.requeueAfter → q ∈ m.pendingDags := by
  obtain ⟨full₁, taken₁, m₁, e₁, done₁, follows₁, model₁, tasks, some₁⟩ :=
    foldTable_sweeps working roomy (.inl rfl) tenant
  have working₁ := working.sweep tasks follows₁ model₁
  obtain ⟨full₂, taken₂, m₂, e₂, done₂, follows₂, model₂, dags, some₂⟩ :=
    foldTable_sweeps working₁ roomy (.inr rfl) tenant
  refine ⟨full₁ || full₂, m₂, e₂, ?_, follows₁.trans follows₂, working₁.sweep dags follows₂ model₂,
    fun full => ?_, fun short => ?_, fun other apart t => ?_,
    fun q member fresh later => tasks.early q (dags.early q member fresh later) fresh later⟩
  · simp only [reconcileTenant, done₁, done₂]
  · have less₁ := tasks.load
    have less₂ := dags.load
    rcases Bool.or_eq_true_iff.mp full with full | full
    · have := some₁ full
      omega
    · have := some₂ full
      omega
  · obtain ⟨rfl, rfl⟩ := Bool.or_eq_false_iff.mp short
    -- The pass over updates brings back no event that the pass over events has left.
    have events : m₂.dueShares tenant now .tasks = [] :=
      List.subset_nil.mp (tasks.emptied working.shares ▸ dags.events)
    rintro (_ | _ | _)
    · exact events
    · exact dags.emptied working₁.shares
    · exact events
  · exact (dags.others other apart t).trans (tasks.others other apart t)

/-! ### Passes until nothing is due -/

/-- So many passes of a tenant, of which only the last reaches no limit. -/
inductive Drains (now : Instant) (tenant : TenantId) : Nat → Engine → Engine → Prop
  | last {e e' : Engine} : e.reconcileTenant now tenant = (.ok false, e') → Drains now tenant 1 e e'
  | again {n : Nat} {e e₁ e' : Engine} : e.reconcileTenant now tenant = (.ok true, e₁) →
      Drains now tenant n e₁ e' → Drains now tenant (n + 1) e e'

/-- So many passes of tenants one after the other. -/
inductive DrainsEach (now : Instant) : List TenantId → Nat → Engine → Engine → Prop
  | none {e : Engine} : DrainsEach now [] 0 e e
  | tenant {tenant : TenantId} {rest : List TenantId} {n more : Nat} {e e₁ e' : Engine} :
      Drains now tenant n e e₁ → DrainsEach now rest more e₁ e' →
        DrainsEach now (tenant :: rest) (n + more) e e'

theorem reconcileRepeatedly_drains {passes : Nat} (working : e.Working m) (roomy : Roomy now)
    (enough : m.load tenant now < passes) : ∃ n m' e', Drains now tenant n e e' ∧
      reconcileRepeatedly now tenant passes e = (none, e') ∧ e.Follows e' ∧ e'.Working m' ∧
      m.Settles now [tenant] m' := by
  induction passes generalizing e m with
  | zero => exact absurd enough (Nat.not_lt_zero _)
  | succ passes ih =>
    obtain ⟨full, m₁, e₁, done, follows, working₁, less, emptied, others, early⟩ :=
      reconcileTenant_pass working roomy tenant
    cases full with
    | false =>
      refine ⟨1, m₁, e₁, .last done, ?_, follows, working₁,
        List.forall_mem_singleton.mpr (emptied rfl), fun other absent => ?_, early⟩
      · simp only [reconcileRepeatedly, done]
      · exact others other (List.ne_of_not_mem_cons absent)
    | true =>
      obtain ⟨n, m', e', drains, rest, follows', working', settles⟩ :=
        ih working₁ (Nat.lt_of_lt_of_le (less rfl) (Nat.le_of_lt_succ enough))
      refine ⟨n + 1, m', e', .again done drains, ?_, follows.trans follows', working', settles.calm,
        fun other absent t => ?_,
        fun q member fresh later => early q (settles.early q member fresh later) fresh later⟩
      · simp only [reconcileRepeatedly, done, rest]
      · exact (settles.others other absent t).trans (others other (List.ne_of_not_mem_cons absent) t)

theorem load_lt_passBound (working : e.Working m) (tenant : TenantId) : m.load tenant now < e.passBound := by
  have events := List.length_filter_le (ripeEvent tenant now) m.pendingEvents
  have dags := List.length_filter_le (ripeDag tenant now) m.pendingDags
  simp only [load, dueShares, List.length_map, passBound, working.model]
  omega

theorem reconcileTenants_drains (working : e.Working m) (roomy : Roomy now) (tenants : List TenantId) :
    ∃ n m' e', DrainsEach now tenants n e e' ∧ reconcileTenants now false tenants e = ([], e') ∧
      e.Follows e' ∧ e'.Working m' ∧ m.Settles now tenants m' := by
  induction tenants generalizing e m with
  | nil => exact ⟨0, m, e, .none, rfl, .refl e, working, .refl m now⟩
  | cons tenant rest ih =>
    obtain ⟨n, m₁, e₁, drains, done, follows, working₁, first⟩ :=
      reconcileRepeatedly_drains working roomy (load_lt_passBound working tenant)
    obtain ⟨more, m', e', drains', done', follows', working', others⟩ := ih working₁
    refine ⟨n + more, m', e', .tenant drains drains', ?_, follows.trans follows', working',
      first.trans others⟩
    simp only [reconcileTenants, Bool.false_eq_true, if_false, done, done']

/-! ### The settings -/

theorem count_pos {lookup : String → Option String} {key : String} {most default n : Nat}
    (fallback : 0 < default) (set : Settings.count lookup key most default = .ok n) : 0 < n := by
  obtain ⟨given, positive, set⟩ := Fallible.bind_ok set
  unfold Settings.positive at positive
  split at positive
  · cases positive
    cases set
    exact fallback
  · split at positive
    · cases positive
    · cases positive
    · rename_i nonzero _
      cases positive
      simp only at set
      split at set
      · cases set
        exact Nat.pos_of_ne_zero nonzero
      · cases set

/-- Settings that are accepted ask for a share at least, and for passes that take something. -/
theorem ofVariables_positive {lookup : String → Option String} {settings : Settings}
    (accepted : Settings.ofVariables lookup = .ok settings) :
    0 < settings.reconcilePartitions ∧ 0 < settings.reconcileBatchLimit := by
  unfold Settings.ofVariables at accepted
  iterate 7 obtain ⟨_, _, accepted⟩ := Fallible.bind_ok accepted
  obtain ⟨partitions, shares, accepted⟩ := Fallible.bind_ok accepted
  obtain ⟨limit, most, accepted⟩ := Fallible.bind_ok accepted
  iterate 9 obtain ⟨_, _, accepted⟩ := Fallible.bind_ok accepted
  cases accepted
  exact ⟨count_pos (by decide) shares, count_pos (by decide) most⟩

/-- With any settings that are accepted, whatever the read model went through and at any clock before the
last minutes of the calendar, reconciling every tenant comes to an end after so many passes. Then no event
of a registered tenant waits that is fresh or due, and no update of its runs that is due; one that is
fresh has waited from the start, for a clock that is later. -/
theorem reconciliation_drains {lookup : String → Option String} {s : Store} {ops : List Operation}
    (accepted : Settings.ofVariables lookup = .ok e.settings)
    (shares : e.shares = max e.settings.reconcilePartitions 1) (stored : e.store = .sound s)
    (readable : after e.settings.reconcilePartitions e.settings.retentionDays ops = .sound m)
    (model : e.readModel = .sound m) (fine : e.failing = []) (roomy : Roomy now) :
    ∃ passes e' m', DrainsEach now (s.tenants.map (·.id)) passes e e' ∧
      e.reconcileAll now false = (.ok (), e') ∧ e'.readModel = .sound m' ∧
      ∀ tenant ∈ s.tenants,
        (∀ q ∈ m'.pendingEvents, q.2.tenantId = tenant.id →
          q.2.requeueRetries ≠ 0 ∧ now < q.2.requeueAfter) ∧
        ∀ q ∈ m'.pendingDags, q.2.tenantId = tenant.id → now < q.2.requeueAfter ∧
          (q.2.requeueRetries = 0 → q ∈ m.pendingDags) := by
  have working : e.Working m := ⟨model, fine, after_dealt readable,
    shares.trans (after_inLine readable).partitions.symm, (ofVariables_positive accepted).2⟩
  obtain ⟨passes, m', e', drains, done, _, working', settles⟩ :=
    reconcileTenants_drains working roomy (s.tenants.map (·.id))
  refine ⟨passes, e', m', drains, ?_, working'.model, fun tenant registered => ?_⟩
  · have read : e.read (·.tenants) = .ok s.tenants := by
      rw [Engine.read, stored]
      rfl
    simp only [reconcileAll, read, done]
    rfl
  · have calm := settles.calm _ (List.mem_map_of_mem registered)
    refine ⟨fun q waits owned => event_late (calm .tasks) waits owned, fun q waits owned => ?_⟩
    have late := dag_late (calm .dags) waits owned
    exact ⟨late, fun fresh => settles.early q waits fresh late⟩

/-- Passes take one event at a time. -/
def oneByOne (key : String) : Option String :=
  if key = "KILN_RECONCILE_BATCH_LIMIT" then some "1" else none

def begun (task : TaskId) : TaskEvent :=
  { (default : TaskEvent) with taskId := task, eventType := .started, status := .running }

/-- Two events wait, one of a task without a row and one of a task whose run has none. -/
def twoBegun : List Operation := [
  .attachPartition .tasks Instant.epoch.date,
  .attachPartition .runs Instant.epoch.date,
  .createTasks default [{ (default : Task) with id := 1, dagId := some 7 }],
  .insertEvents .epoch default [begun 1, begun 2]]

def crowded : Engine where
  settings := { reconcileBatchLimit := 1 }
  store := .sound { tenants := [⟨default, none⟩] }
  readModel := after 4 7 twoBegun

/-- Both come to wait for later, the one as an event and the other as an update of its run. -/
theorem crowded_drained : ∃ passes e' m', DrainsEach .epoch [default] passes crowded e' ∧
    crowded.reconcileAll .epoch false = (.ok (), e') ∧ e'.readModel = .sound m' ∧
    m'.pendingEvents.map (·.2.requeueRetries) = [1] ∧ m'.pendingDags.map (·.2.requeueRetries) = [1] ∧
    (∀ q ∈ m'.pendingEvents, q.2.tenantId = default → .epoch < q.2.requeueAfter) ∧
    ∀ q ∈ m'.pendingDags, q.2.tenantId = default → .epoch < q.2.requeueAfter := by
  obtain ⟨m, readable⟩ : ∃ m, after 4 7 twoBegun = .sound m := ⟨_, rfl⟩
  obtain ⟨passes, e', m', drains, done, model, late⟩ :=
    @reconciliation_drains crowded m .epoch oneByOne _ twoBegun rfl rfl rfl readable readable rfl
      roomy_epoch
  obtain ⟨events, dags⟩ := late ⟨default, none⟩ List.mem_cons_self
  obtain ⟨_, queues, back, late⟩ : ∃ m', (crowded.reconcileAll .epoch false).2.readModel = .sound m' ∧
      m'.pendingEvents.map (·.2.requeueRetries) = [1] ∧
      m'.pendingDags.map (·.2.requeueRetries) = [1] :=
    ⟨_, rfl, by decide +kernel, by decide +kernel⟩
  rw [done, model] at queues
  cases queues
  exact ⟨passes, e', m', drains, done, model, back, late,
    fun q waits owned => (events q waits owned).2, fun q waits owned => (dags q waits owned).1⟩

end WorkflowEngine.Engine
