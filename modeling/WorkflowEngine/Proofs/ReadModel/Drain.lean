import WorkflowEngine.Proofs.ReadModel.Queue
import WorkflowEngine.Proofs.ReadModel.Tables

/-!
Passes at a clock that stands still. A pass takes what it takes for good: what comes back is due later.
Events bring at most one update each, so twice the due events and the due updates together grow less with
every pass that takes something. A pass that does not reach its limit leaves nothing due in its share.
-/

namespace WorkflowEngine.ReadModel

open Fallible

variable {m m' : ReadModel} {tenant other : TenantId} {share limit n : Nat} {now : Instant}

/-! ### What is due -/

/-- The event is of the tenant and due. -/
def ripeEvent (tenant : TenantId) (now : Instant) (q : Nat × Pending) : Bool :=
  q.2.tenantId == tenant && (q.2.requeueRetries == 0 || decide (q.2.requeueAfter ≤ now))

/-- The update is of the tenant and due. -/
def ripeDag (tenant : TenantId) (now : Instant) (q : Nat × PendingDag) : Bool :=
  q.2.tenantId == tenant && decide (q.2.requeueAfter ≤ now)

/-- The shares of what is due of a tenant: of updates for the table of runs, else of events. -/
def dueShares (m : ReadModel) (tenant : TenantId) (now : Instant) : Table → List Nat
  | .dags => (m.pendingDags.filter (ripeDag tenant now)).map (·.1)
  | .tasks | .runs => (m.pendingEvents.filter (ripeEvent tenant now)).map (·.1)

/-- How much there is to do for a tenant. -/
def load (m : ReadModel) (tenant : TenantId) (now : Instant) : Nat :=
  2 * (m.dueShares tenant now .tasks).length + (m.dueShares tenant now .dags).length

theorem eventDue_ripe {q : Nat × Pending} :
    eventDue tenant share now q = (q.1 == share && ripeEvent tenant now q) := Bool.and_assoc ..

theorem dagDue_ripe {q : Nat × PendingDag} :
    dagDue tenant share now q = (q.1 == share && ripeDag tenant now q) := Bool.and_assoc ..

theorem ripeEvent_other {q : Nat × Pending} (apart : other ≠ tenant)
    (due : eventDue tenant share now q = true) : ripeEvent other now q = false := by
  simp only [eventDue, Bool.and_eq_true, beq_iff_eq] at due
  simp [ripeEvent, due.1.2, Ne.symm apart]

theorem ripeDag_other {q : Nat × PendingDag} (apart : other ≠ tenant)
    (due : dagDue tenant share now q = true) : ripeDag other now q = false := by
  simp only [dagDue, Bool.and_eq_true, beq_iff_eq] at due
  simp [ripeDag, due.1.2, Ne.symm apart]

theorem event_late {q : Nat × Pending} (calm : m.dueShares tenant now .tasks = [])
    (waits : q ∈ m.pendingEvents) (owned : q.2.tenantId = tenant) :
    q.2.requeueRetries ≠ 0 ∧ now < q.2.requeueAfter := by
  rw [dueShares, List.map_eq_nil_iff, List.filter_eq_nil_iff] at calm
  have unripe : ¬ (q.2.requeueRetries = 0 ∨ q.2.requeueAfter ≤ now) := by
    simpa [ripeEvent, owned] using calm q waits
  exact ⟨fun fresh => unripe (.inl fresh), Int.not_le.mp fun due => unripe (.inr due)⟩

theorem dag_late {q : Nat × PendingDag} (calm : m.dueShares tenant now .dags = [])
    (waits : q ∈ m.pendingDags) (owned : q.2.tenantId = tenant) : now < q.2.requeueAfter := by
  rw [dueShares, List.map_eq_nil_iff, List.filter_eq_nil_iff] at calm
  have unripe : ¬ q.2.requeueAfter ≤ now := by
    simpa [ripeDag, owned] using calm q waits
  exact Int.not_le.mp unripe

/-- What waits is in a share that there is, and how often it came back is counted from zero. -/
structure Dealt (m : ReadModel) : Prop where
  shares : 1 ≤ m.partitionCount
  events : ∀ q ∈ m.pendingEvents, q.1 < m.partitionCount ∧ 0 ≤ q.2.requeueRetries
  dags : ∀ q ∈ m.pendingDags, q.1 < m.partitionCount ∧ 0 ≤ q.2.requeueRetries

theorem share_lt (shares : 1 ≤ m.partitionCount) (id : Int) : m.share id < m.partitionCount := by
  rw [share, hashPartition, max_eq_left shares]
  have positive : 0 < min m.partitionCount maxShares := lt_min shares (by decide)
  have below := Int.emod_lt_of_pos id (Int.natCast_pos.mpr positive)
  have above := Int.emod_nonneg id (Int.natCast_pos.mpr positive).ne'
  have small : min m.partitionCount maxShares ≤ m.partitionCount := Nat.min_le_left _ _
  omega

theorem Dealt.dueShares (dealt : m.Dealt) (t : Table) :
    ∀ s ∈ m.dueShares tenant now t, s < m.partitionCount := by
  intro s member
  cases t with
  | dags =>
    obtain ⟨q, hq, rfl⟩ := List.mem_map.mp member
    exact (dealt.dags q (List.mem_filter.mp hq).1).1
  | tasks | runs =>
    obtain ⟨q, hq, rfl⟩ := List.mem_map.mp member
    exact (dealt.events q (List.mem_filter.mp hq).1).1

/-! ### Updates that are queued -/

theorem applyAll_few (m : ReadModel) (fs : List Folded) : (m.applyAll fs).1.length ≤ fs.length := by
  have placed (id : DagId) (l : List DagId) :
      (Ascending.put (fun a b => decide (a < b)) id l).length ≤ l.length + 1 := by
    induction l with
    | nil => exact Nat.le_refl 1
    | cons b rest ih =>
      unfold Ascending.put
      split
      · exact Nat.le_refl _
      · split
        · exact Nat.succ_le_succ ih
        · exact Nat.le_succ _
  induction fs generalizing m with
  | nil => exact Nat.le_refl 0
  | cons f rest ih =>
    have fewer := ih (m.applyFolded f).2
    simp only [applyAll, List.length_cons]
    split
    · exact (placed _ _).trans (Nat.succ_le_succ fewer)
    · exact fewer.trans (Nat.le_succ _)

theorem foldPending_few (batch : List Pending) : (foldPending batch).length ≤ batch.length := by
  have placed (f : Folded) (fs : List Folded) : (Folded.insert f fs).length ≤ fs.length + 1 := by
    induction fs with
    | nil => exact Nat.le_refl 1
    | cons g rest ih =>
      unfold Folded.insert
      split
      · exact Nat.le_refl _
      · split
        · exact Nat.le_succ _
        · exact Nat.succ_le_succ ih
  have folded (fs : List Folded) : (batch.foldl (fun acc p => Folded.insert (.ofPending p) acc)
      fs).length ≤ fs.length + batch.length := by
    induction batch generalizing fs with
    | nil => exact Nat.le_refl _
    | cons p rest ih =>
      refine (ih (Folded.insert (.ofPending p) fs)).trans ?_
      have first := placed (.ofPending p) fs
      rw [List.length_cons]
      omega
  exact (folded []).trans (Nat.le_of_eq (Nat.zero_add _))

/-- An update as passes over events queue it. -/
structure Queued (m : ReadModel) (tenant : TenantId) (now : Instant) (q : Nat × PendingDag) : Prop where
  share : q.1 < m.partitionCount
  tenant : q.2.tenantId = tenant
  clock : q.2.requeueAfter = now
  fresh : q.2.requeueRetries = 0

theorem Queued.congr {q : Nat × PendingDag} (queued : m'.Queued tenant now q)
    (same : m'.partitionCount = m.partitionCount) : m.Queued tenant now q :=
  ⟨same ▸ queued.share, queued.tenant, queued.clock, queued.fresh⟩

/-- A pass over events appends updates of its tenant, no more than it was told of. -/
theorem queueDags_queue (shares : 1 ≤ m.partitionCount) (tenant : TenantId) (now : Instant)
    (ids : List DagId) : ∃ more,
      (ids.foldl (fun m id => m.queueDag tenant now id) m).pendingDags = m.pendingDags ++ more ∧
      more.length ≤ ids.length ∧ ∀ q ∈ more, m.Queued tenant now q := by
  induction ids generalizing m with
  | nil => exact ⟨[], (List.append_nil _).symm, Nat.le_refl 0, List.forall_mem_nil _⟩
  | cons id rest ih =>
    have count : (m.queueDag tenant now id).partitionCount = m.partitionCount := by
      unfold queueDag
      split <;> rfl
    obtain ⟨more, queue, few, placed⟩ := ih (m := m.queueDag tenant now id) (count.symm ▸ shares)
    have placed : ∀ q ∈ more, m.Queued tenant now q := fun q member => (placed q member).congr count
    rw [List.foldl_cons, queue]
    unfold queueDag
    split
    · exact ⟨more, rfl, few.trans (Nat.le_succ _), placed⟩
    · refine ⟨_ :: more, List.append_assoc .., Nat.succ_le_succ few, ?_⟩
      exact List.forall_mem_cons.mpr ⟨⟨share_lt shares id, rfl, rfl, rfl⟩, placed⟩

/-! ### What is left of a queue -/

/-- A queue after a pass, as to what is ripe: the pass takes for good, and all of its share if it may. -/
structure Swept {α : Type} (ripe : Nat × α → Bool) (share limit taken : Nat)
    (queue queue' : List (Nat × α)) : Prop where
  fewer : (queue'.filter ripe).length + taken = (queue.filter ripe).length
  shares : (queue'.filter ripe).map (·.1) ⊆ (queue.filter ripe).map (·.1)
  left : taken < limit → share ∉ (queue'.filter ripe).map (·.1)

theorem takeDue_swept {α : Type} {ripe due : Nat × α → Bool} {queue queue' more : List (Nat × α)}
    (own : ∀ q, due q = (q.1 == share && ripe q)) (rest : queue' = (takeDue due limit queue).2 ++ more)
    (late : more.filter ripe = []) :
    Swept ripe share limit (takeDue due limit queue).1.length queue queue' := by
  have kept : queue'.filter ripe = (takeDue due limit queue).2.filter ripe := by
    rw [rest, List.filter_append, late, List.append_nil]
  refine ⟨?_, ?_, fun short still => ?_⟩
  · rw [kept]
    refine takeDue_fewer fun q due => ?_
    rw [own, Bool.and_eq_true] at due
    exact due.2
  · rw [kept]
    exact (((takeDue_sublist due limit queue).filter _).map _).subset
  · rw [kept] at still
    obtain ⟨q, hq, here⟩ := List.mem_map.mp still
    obtain ⟨waits, isRipe⟩ := List.mem_filter.mp hq
    have early := takeDue_short short q waits
    rw [own, isRipe, here] at early
    simp at early

/-! ### Passes over some shares -/

/-- What passes over some shares of a table come to, of which something is full if a limit was
reached. -/
structure Sweeps (m : ReadModel) (tenant : TenantId) (now : Instant) (t : Table) (shares : List Nat)
    (taken : Nat) (full : Bool) (m' : ReadModel) : Prop where
  dealt : m'.Dealt
  partitions : m'.partitionCount = m.partitionCount
  load : m'.load tenant now + taken ≤ m.load tenant now
  own : m'.dueShares tenant now t ⊆ m.dueShares tenant now t
  events : m'.dueShares tenant now .tasks ⊆ m.dueShares tenant now .tasks
  left : full = false → ∀ s ∈ shares, s ∉ m'.dueShares tenant now t
  others : ∀ other, other ≠ tenant → ∀ t, m'.dueShares other now t = m.dueShares other now t
  early : ∀ q ∈ m'.pendingDags, q.2.requeueRetries = 0 → now < q.2.requeueAfter → q ∈ m.pendingDags

theorem Sweeps.refl (dealt : m.Dealt) (t : Table) : m.Sweeps tenant now t [] 0 false m :=
  ⟨dealt, rfl, Nat.le_refl _, List.Subset.refl _, List.Subset.refl _, fun _ => List.forall_mem_nil _,
    fun _ _ _ => rfl, fun _ member _ _ => member⟩

theorem Sweeps.trans {m₁ : ReadModel} {t : Table} {shares more : List Nat} {taken taken' : Nat}
    {full full' : Bool} (first : m.Sweeps tenant now t shares taken full m₁)
    (second : m₁.Sweeps tenant now t more taken' full' m') :
    m.Sweeps tenant now t (shares ++ more) (taken + taken') (full || full') m' := by
  refine ⟨second.dealt, second.partitions.trans first.partitions, ?_,
    List.Subset.trans second.own first.own, List.Subset.trans second.events first.events,
    fun short => ?_,
    fun other apart t => (second.others other apart t).trans (first.others other apart t),
    fun q member fresh later => first.early q (second.early q member fresh later) fresh later⟩
  · have := first.load
    have := second.load
    omega
  · obtain ⟨short, short'⟩ := Bool.or_eq_false_iff.mp short
    intro s member
    rcases List.mem_append.mp member with earlier | later
    · exact fun still => first.left short s earlier (second.own still)
    · exact second.left short' s later

/-- Once no share reaches its limit, nothing is due. -/
theorem Sweeps.emptied {t : Table} {shares taken : Nat}
    (sweeps : m.Sweeps tenant now t (List.range shares) taken false m')
    (all : shares = m.partitionCount) : m'.dueShares tenant now t = [] := by
  refine List.eq_nil_iff_forall_not_mem.mpr fun s due => sweeps.left rfl s (List.mem_range.mpr ?_) due
  rw [all, ← sweeps.partitions]
  exact sweeps.dealt.dueShares t s due

/-- What becomes of the queues when tenants are reconciled. -/
structure Settles (m : ReadModel) (now : Instant) (tenants : List TenantId) (m' : ReadModel) : Prop where
  calm : ∀ tenant ∈ tenants, ∀ t, m'.dueShares tenant now t = []
  others : ∀ other, other ∉ tenants → ∀ t, m'.dueShares other now t = m.dueShares other now t
  early : ∀ q ∈ m'.pendingDags, q.2.requeueRetries = 0 → now < q.2.requeueAfter → q ∈ m.pendingDags

theorem Settles.refl (m : ReadModel) (now : Instant) : m.Settles now [] m :=
  ⟨List.forall_mem_nil _, fun _ _ _ => rfl, fun _ member _ _ => member⟩

/-- What is settled of the earlier tenants stays so. -/
theorem Settles.trans {m₁ : ReadModel} {tenants more : List TenantId} (first : m.Settles now tenants m₁)
    (second : m₁.Settles now more m') : m.Settles now (tenants ++ more) m' := by
  refine ⟨fun tenant member t => ?_, fun other absent t => ?_,
    fun q member fresh later => first.early q (second.early q member fresh later) fresh later⟩
  · by_cases again : tenant ∈ more
    · exact second.calm tenant again t
    · have earlier := (List.mem_append.mp member).resolve_right again
      exact (second.others tenant again t).trans (first.calm tenant earlier t)
  · rw [List.mem_append, not_or] at absent
    exact (second.others other absent.2 t).trans (first.others other absent.1 t)

/-- What comes back is not due, as clocks stand still. -/
theorem again_unripe (other : TenantId) (share : Nat) {batch : List Pending}
    (counted : ∀ p ∈ batch, 0 ≤ p.requeueRetries) :
    ((batch.filterMap (m.again? now)).map (share, ·)).filter (ripeEvent other now) = [] := by
  refine List.filter_eq_nil_iff.mpr fun q member ripe => ?_
  obtain ⟨p', back, rfl⟩ := List.mem_map.mp member
  obtain ⟨p, listed, back⟩ := List.mem_filterMap.mp back
  obtain ⟨few, rfl⟩ := again?_some back
  have positive := (requeueDelay_bounds few).1
  have counted := counted p listed
  simp only [ripeEvent, Bool.and_eq_true, Bool.or_eq_true, beq_iff_eq, decide_eq_true_eq] at ripe
  change _ ∧ (_ ∨ now.nanos + requeueDelay p.requeueRetries * 1000000000 ≤ now.nanos) at ripe
  omega

theorem foldTasks_updates (shares : 1 ≤ m.partitionCount)
    (done : m.foldTasks tenant share limit now = .ok (n, m')) :
    m'.partitionCount = m.partitionCount ∧ ∃ more, m'.pendingDags = m.pendingDags ++ more ∧
      more.length ≤ n ∧ ∀ q ∈ more, m.Queued tenant now q := by
  simp only [foldTasks] at done
  obtain ⟨m₁, back, done⟩ := bind_ok done
  cases done
  have kept : m₁.partitionCount = m.partitionCount ∧ m₁.pendingDags = m.pendingDags := by
    obtain ⟨again, _, back⟩ := bind_ok back
    cases back
    exact ⟨applyAll_pending.2.1, (applyAll_runs _ _).2⟩
  obtain ⟨more, queue, few, placed⟩ := queueDags_queue (kept.1.symm ▸ shares) tenant now
    (applyAll { m with
      pendingEvents := (takeDue (eventDue tenant share now) limit m.pendingEvents).2 }
        (foldPending ((takeDue (eventDue tenant share now) limit m.pendingEvents).1.map (·.2)))).1
  exact ⟨queueDags_same.2.2.1.trans kept.1, more, queue.trans (congrArg (· ++ more) kept.2),
    few.trans ((applyAll_few _ _).trans (foldPending_few _)),
    fun q member => (placed q member).congr kept.1⟩

theorem foldTasks_sweeps (dealt : m.Dealt)
    (done : m.foldTasks tenant share limit now = .ok (n, m')) :
    m.Sweeps tenant now .tasks [share] n (decide (limit ≤ n)) m' := by
  obtain ⟨count, _, events⟩ := foldTasks_queue done
  obtain ⟨partitions, more, dags, few, placed⟩ := foldTasks_updates dealt.shares done
  have waiting : ∀ p ∈ m.due tenant share limit now, (share, p) ∈ m.pendingEvents :=
    fun p member => (due_pending member).1
  have unripe (other : TenantId) := @again_unripe m now other share (m.due tenant share limit now)
    fun p member => (dealt.events _ (waiting p member)).2
  have swept : Swept (ripeEvent tenant now) share limit n m.pendingEvents m'.pendingEvents := by
    rw [count, due, List.length_map]
    exact takeDue_swept (fun q => eventDue_ripe) events (unripe tenant)
  refine ⟨⟨partitions ▸ dealt.shares, fun q member => ?_, fun q member => ?_⟩, partitions, ?_,
    swept.shares, swept.shares, fun short => ?_, fun other apart t => ?_, fun q member fresh later => ?_⟩
  · rw [events] at member
    rw [partitions]
    rcases List.mem_append.mp member with kept | new
    · exact dealt.events q ((takeDue_sublist _ _ _).subset kept)
    · obtain ⟨p', back, rfl⟩ := List.mem_map.mp new
      obtain ⟨p, listed, back⟩ := List.mem_filterMap.mp back
      obtain ⟨_, rfl⟩ := again?_some back
      obtain ⟨inside, counted⟩ := dealt.events _ (waiting p listed)
      exact ⟨inside, Int.le_add_one counted⟩
  · rw [dags] at member
    rw [partitions]
    exact (List.mem_append.mp member).elim (dealt.dags q) fun new =>
      ⟨(placed q new).share, (placed q new).fresh.ge⟩
  · have fewer := swept.fewer
    have added := List.length_filter_le (ripeDag tenant now) more
    simp only [load, dueShares, List.length_map, dags, List.filter_append, List.length_append]
    omega
  · exact List.forall_mem_singleton.mpr (swept.left (Nat.not_le.mp (of_decide_eq_false short)))
  · cases t with
    | dags =>
      have none : more.filter (ripeDag other now) = [] := by
        refine List.filter_eq_nil_iff.mpr fun q member due => ?_
        simp only [ripeDag, Bool.and_eq_true, beq_iff_eq] at due
        exact apart (due.1.symm.trans (placed q member).tenant)
      rw [dueShares, dueShares, dags, List.filter_append, none, List.append_nil]
    | tasks | runs =>
      rw [dueShares, dueShares, events, List.filter_append, unripe, List.append_nil,
        takeDue_others fun q due => ripeEvent_other apart due]
  · rw [dags] at member
    refine (List.mem_append.mp member).resolve_right fun new => ?_
    rw [(placed q new).clock] at later
    exact absurd later (Int.lt_irrefl _)

/-! ### Passes over updates -/

/-- Updates whose run has no row come back, due later. -/
theorem foldDag_queue {p : PendingDag} (done : m.foldDag share now p = .ok m') :
    m'.pendingEvents = m.pendingEvents ∧ m'.partitionCount = m.partitionCount ∧
      ∃ more, m'.pendingDags = m.pendingDags ++ more ∧
        ∀ q ∈ more, q.1 = share ∧ q.2.tenantId = p.tenantId ∧ now < q.2.requeueAfter ∧
          q.2.requeueRetries = p.requeueRetries + 1 := by
  unfold foldDag at done
  split at done
  · cases done
    refine ⟨?_, ?_, [], ?_, List.forall_mem_nil _⟩ <;> unfold refreshDag <;> simp only <;> split <;> simp
  · split at done
    · rename_i few
      obtain ⟨after, deadline, done⟩ := bind_ok done
      cases done
      refine ⟨rfl, rfl, _, rfl, List.forall_mem_singleton.mpr ⟨rfl, rfl, ?_, rfl⟩⟩
      have positive := (requeueDelay_bounds few).1
      rw [deadline_value deadline]
      change now.nanos < now.nanos + _
      omega
    · cases done
      exact ⟨rfl, rfl, [], (List.append_nil _).symm, List.forall_mem_nil _⟩

theorem firstUpdates_sublist (seen : List DagId) (batch : List PendingDag) :
    (firstUpdates seen batch).Sublist batch := by
  induction batch generalizing seen with
  | nil => exact List.Sublist.refl _
  | cons p rest ih =>
    unfold firstUpdates
    split
    · exact (ih seen).cons p
    · exact (ih (p.dagId :: seen)).cons_cons p

/-- An update as it comes back from a pass over updates. -/
structure Returned (m : ReadModel) (tenant : TenantId) (now : Instant) (q : Nat × PendingDag) : Prop where
  once : ∃ p ∈ m.pendingDags, p.1 = q.1 ∧ q.2.requeueRetries = p.2.requeueRetries + 1
  tenant : q.2.tenantId = tenant
  clock : now < q.2.requeueAfter

theorem foldDags_queue (done : m.foldDags tenant share limit now = .ok (n, m')) :
    n = (takeDue (dagDue tenant share now) limit m.pendingDags).1.length ∧
    m'.pendingEvents = m.pendingEvents ∧ m'.partitionCount = m.partitionCount ∧
    ∃ more, m'.pendingDags = (takeDue (dagDue tenant share now) limit m.pendingDags).2 ++ more ∧
      ∀ q ∈ more, m.Returned tenant now q := by
  obtain ⟨m₁, folded, done⟩ := bind_ok done
  cases done
  refine ⟨List.length_map _, ?_⟩
  refine foldlM_ok (P := fun m' => m'.pendingEvents = m.pendingEvents ∧
    m'.partitionCount = m.partitionCount ∧
    ∃ more, m'.pendingDags = (takeDue (dagDue tenant share now) limit m.pendingDags).2 ++ more ∧
      ∀ q ∈ more, m.Returned tenant now q) folded
        ⟨rfl, rfl, [], (List.append_nil _).symm, List.forall_mem_nil _⟩ ?_
  rintro m₁ p listed m₂ ⟨events, partitions, more, queue, late⟩ step
  obtain ⟨events', partitions', back, queue', late'⟩ := foldDag_queue step
  obtain ⟨q, taken, rfl⟩ := List.mem_map.mp ((firstUpdates_sublist [] _).subset listed)
  have due := takeDue_due taken
  simp only [dagDue, Bool.and_eq_true, beq_iff_eq] at due
  have waited : q ∈ m.pendingDags := mem_takeDue.mpr (Or.inl taken)
  refine ⟨events'.trans events, partitions'.trans partitions, more ++ back, ?_, fun x member => ?_⟩
  · rw [queue', queue, List.append_assoc]
  · rcases List.mem_append.mp member with old | new
    · exact late x old
    · obtain ⟨here, owner, later, again⟩ := late' x new
      exact ⟨⟨q, waited, due.1.1.trans here.symm, again⟩, owner.trans due.1.2, later⟩

theorem foldDags_sweeps (dealt : m.Dealt) (done : m.foldDags tenant share limit now = .ok (n, m')) :
    m.Sweeps tenant now .dags [share] n (decide (limit ≤ n)) m' := by
  obtain ⟨count, events, partitions, more, dags, late⟩ := foldDags_queue done
  have unripe (other : TenantId) : more.filter (ripeDag other now) = [] := by
    refine List.filter_eq_nil_iff.mpr fun q member ripe => ?_
    simp only [ripeDag, Bool.and_eq_true, decide_eq_true_eq] at ripe
    exact absurd (late q member).clock (Int.not_lt.mpr ripe.2)
  have swept : Swept (ripeDag tenant now) share limit n m.pendingDags m'.pendingDags := by
    rw [count]
    exact takeDue_swept (fun q => dagDue_ripe) dags (unripe tenant)
  refine ⟨⟨partitions ▸ dealt.shares, ?_, fun q member => ?_⟩, partitions, ?_, swept.shares, ?_,
    fun short => ?_, fun other apart t => ?_, fun q member fresh later => ?_⟩
  · rw [events, partitions]
    exact dealt.events
  · rw [dags] at member
    rw [partitions]
    rcases List.mem_append.mp member with kept | new
    · exact dealt.dags q ((takeDue_sublist _ _ _).subset kept)
    · obtain ⟨p, waited, here, again⟩ := (late q new).once
      obtain ⟨inside, counted⟩ := dealt.dags p waited
      exact ⟨here ▸ inside, again ▸ Int.le_add_one counted⟩
  · have fewer := swept.fewer
    simp only [load, dueShares, List.length_map, events]
    omega
  · rw [dueShares, dueShares, events]
    exact List.Subset.refl _
  · exact List.forall_mem_singleton.mpr (swept.left (Nat.not_le.mp (of_decide_eq_false short)))
  · cases t with
    | dags =>
      rw [dueShares, dueShares, dags, List.filter_append, unripe, List.append_nil,
        takeDue_others fun q due => ripeDag_other apart due]
    | tasks | runs => rw [dueShares, dueShares, events]
  · rw [dags] at member
    rcases List.mem_append.mp member with kept | new
    · exact (takeDue_sublist _ _ _).subset kept
    · obtain ⟨p, waited, _, again⟩ := (late q new).once
      have counted := (dealt.dags p waited).2
      omega

theorem foldDags_total (roomy : Roomy now) (m : ReadModel) (tenant : TenantId) (share limit : Nat) :
    ∃ n m', m.foldDags tenant share limit now = .ok (n, m') := by
  have step (m : ReadModel) (p : PendingDag) : ∃ m', m.foldDag share now p = .ok m' := by
    unfold foldDag
    split
    · exact ⟨_, rfl⟩
    · split
      · rename_i few
        rw [roomy.deadline few]
        exact ⟨_, rfl⟩
      · exact ⟨_, rfl⟩
  obtain ⟨m₁, folded, _⟩ := foldlM_total (f := fun (m : ReadModel) p => m.foldDag share now p)
    (P := fun _ => True) (l := firstUpdates [] ((takeDue (dagDue tenant share now) limit
      m.pendingDags).1.map (·.2)))
    (b := { m with pendingDags := (takeDue (dagDue tenant share now) limit m.pendingDags).2 })
    trivial fun m p _ _ => (step m p).imp fun _ done => ⟨done, trivial⟩
  exact ⟨_, m₁, by simp only [foldDags, folded]; rfl⟩

/-! ### Runs of operations -/

theorem perform_dealt {op : Operation} {taken : List Pending} (dealt : m.Dealt) (ordered : m.Ordered)
    (done : m.perform op = .ok (taken, m')) : m'.Dealt := by
  have partitions := (perform_shelves ordered done).partitions
  have same : m'.pendingEvents = m.pendingEvents → m'.pendingDags = m.pendingDags → m'.Dealt :=
    fun events dags => ⟨partitions ▸ dealt.shares, by rw [events, partitions]; exact dealt.events,
      by rw [dags, partitions]; exact dealt.dags⟩
  cases performs done with
  | createTasks created =>
    rw [createTasks_rows created] at same ⊢
    exact same (addTasks_same m _).2 (addTasks_runs m _).2
  | createDags created =>
    refine same (createDags_same created).2.2 ?_
    rw [createDags_rows created, (addDags_same m _).2]
  | insertEvents now tenant events =>
    refine ⟨dealt.shares, fun q member => ?_, dealt.dags⟩
    rcases List.mem_append.mp member with old | new
    · exact dealt.events q old
    · obtain ⟨e, _, rfl⟩ := List.mem_map.mp new
      exact ⟨share_lt dealt.shares e.taskId, Int.le_refl 0⟩
  | foldTasks folded => exact (foldTasks_sweeps dealt folded).dealt
  | foldDags folded => exact (foldDags_sweeps dealt folded).dealt
  | maintain now => exact same (maintain_same m now).2.2 (maintain_runs m now).2
  | attachPartition => exact same rfl rfl

theorem after_dealt {partitions days : Nat} {ops : List Operation}
    (readable : after partitions days ops = .sound m) : m.Dealt := by
  induction ops using List.reverseRecOn generalizing m with
  | nil =>
    cases readable
    exact ⟨Nat.le_max_right _ _, List.forall_mem_nil _, List.forall_mem_nil _⟩
  | append_singleton ops op ih =>
    obtain ⟨m₁, earlier, ⟨rfl, _⟩ | ⟨taken, done, _⟩⟩ := after_concat readable
    · exact ih earlier
    · exact perform_dealt (ih earlier) (after_ordered earlier).1 done

end WorkflowEngine.ReadModel
