import WorkflowEngine.Host.Loops
import WorkflowEngine.Proofs.Bus.Readable
import WorkflowEngine.Proofs.Store.Eviction
import WorkflowEngine.Proofs.System.Commands
import WorkflowEngine.Proofs.System.Telling

/-!
Evicted attempts on their way to be cancelled. The store gives them up when it runs a strategy; the
result of the evaluation waits to be announced, the order to cancel them is sent when it is, and the
message with the order is handled at some time after that, perhaps more than once. As long as the order
is sent, no task that waits is left without a place or an order. An order that was refused is not made
again: no evaluation will come upon the attempt, as it has no slot any more.
-/

namespace WorkflowEngine

open Fallible Store

/-- The engine with what is handed on in it: evaluations that wait to be announced, and messages about
tasks that wait to be handled. -/
structure Handoff where
  engine : Engine
  /-- The evaluations that were not announced yet. -/
  results : List Evaluation := []
  /-- The messages about tasks that were handled, by their places in the record. -/
  handled : List Nat := []
  /-- The attempts that could not be ordered to be cancelled. -/
  refused : List Attempt := []

/-- Announces an evaluation, and gives the faults of the order to cancel what was evicted. -/
def Engine.announce (e : Engine) (r : Evaluation) : List Fault × Engine :=
  let (faults, e) := e.orderCancellations r.tenantId r.summary.cancelled
  (faults, (e.announceQueued r.tenantId r.summary.queued).2)

namespace Handoff

inductive Action where
  | command (c : Command) (spares : c.evicts = false)
  | sweep (now : Instant) (kind : Sweep) (tenant : TenantId)
  /-- Payloads come in from elsewhere. -/
  | handle (now : Instant) (tenant : TenantId) (kindName : String) (payloads : List ByteArray)
  /-- From now on sends to queues whose names begin so are refused, and no others. -/
  | block (leads : List String)
  | evaluate (tenant : TenantId) (strategy : Strategy)
  /-- One of the evaluations that wait is announced. -/
  | announce (n : Nat)
  /-- A message about tasks is handled, perhaps again. -/
  | deliver (now : Instant) (n : Nat)

/-- The messages about tasks. -/
def mail (h : Handoff) : List Message := h.engine.bus.published .tasks

/-- Runs a strategy. The result is to be announced, unless nothing was decided. -/
def evaluate (h : Handoff) (tenant : TenantId) (strategy : Strategy) : Handoff :=
  match h.engine.evaluate tenant strategy with
  | (.error _, engine) => { h with engine }
  | (.ok summary, engine) =>
    { h with
      engine
      results := if summary.isEmpty then h.results
        else h.results ++ [⟨tenant, strategy.id, summary⟩] }

/-- Announces an evaluation that waits. It is done with then, whether or not the sends succeed. -/
def announce (h : Handoff) (n : Nat) : Handoff :=
  match h.results[n]? with
  | none => h
  | some r =>
    let (faults, engine) := h.engine.announce r
    { h with
      engine
      results := h.results.eraseIdx n
      refused := if faults.isEmpty then h.refused else h.refused ++ r.summary.cancelled.map (·.task) }

/-- Has a message handled. It is still to be handled if that fails. -/
def deliver (h : Handoff) (now : Instant) (n : Nat) : Handoff :=
  match h.mail[n]? with
  | none => h
  | some m =>
    match h.engine.handleTasks now m.tenantId m.kindName m.payloads with
    | (.ok _, engine) => { h with engine, handled := n :: h.handled }
    | (.error _, engine) => { h with engine }

def act (h : Handoff) : Action → Handoff
  | .command c _ => { h with engine := (h.engine.write fun s => s.obey c).2 }
  | .sweep now kind tenant => { h with engine := (h.engine.sweepOnce now kind tenant).2 }
  | .handle now tenant kindName payloads =>
    { h with engine := (h.engine.handleTasks now tenant kindName payloads).2 }
  | .block leads =>
    { h with engine := { h.engine with bus := { h.engine.bus with blocked := leads } } }
  | .evaluate tenant strategy => h.evaluate tenant strategy
  | .announce n => h.announce n
  | .deliver now n => h.deliver now n

def run (h : Handoff) (actions : List Action) : Handoff := actions.foldl act h

/-- A system without data. -/
def start (settings : Settings) : Handoff where
  engine := .ofSettings settings

end Handoff

theorem Handoff.announce_eq {h : Handoff} {n : Nat} {r : Evaluation} (here : h.results[n]? = some r) :
    h.announce n = { h with
      engine := (h.engine.announce r).2
      results := h.results.eraseIdx n
      refused := if (h.engine.announce r).1.isEmpty then h.refused
        else h.refused ++ r.summary.cancelled.map (·.task) } := by
  rw [Handoff.announce, here]

/-! ### Within a host -/

namespace Host

variable {h : Host} {l : LoopId} {m : Manager}

/-- What the supervisor of a host has in hand. -/
def handoff (h : Host) : Handoff where
  engine := h.engine
  results := h.supervisor.results

theorem wake_handoff (h : Host) (p : Process) : (h.wake p).handoff = h.handoff := by
  unfold wake
  split <;> rfl

theorem wakeAll_handoff (h : Host) (loops : List LoopId) : (h.wakeAll loops).handoff = h.handoff :=
  List.foldlRecOn (motive := fun h' : Host => h'.handoff = h.handoff) loops _ rfl
    fun h' same l _ => (h'.wake_handoff (.loop l)).trans same

theorem cancelManager_handoff (h : Host) (id : ManagerId) :
    (h.cancelManager id).handoff = h.handoff := by
  unfold cancelManager
  split
  · rfl
  · exact wakeAll_handoff _ _

theorem notifyManager_handoff (h : Host) (id : ManagerId) :
    (h.notifyManager id).handoff = h.handoff := by
  unfold notifyManager
  split
  · rfl
  · dsimp only
    split
    · exact wake_handoff _ _
    · rfl

theorem spawn_handoff (h : Host) (duty : Duty) : (h.spawn duty).2.handoff = h.handoff :=
  wake_handoff _ _

theorem superviseStrategy_handoff (h : Host) (tenant : TenantId) (strategy : Strategy) :
    (h.superviseStrategy tenant strategy).handoff = h.handoff := by
  unfold superviseStrategy
  split
  · rfl
  · exact (spawn_handoff _ _).trans (spawn_handoff _ _)

theorem syncStrategies_handoff (h : Host) (tenant : TenantId) :
    (h.syncStrategies leave tenant).2.handoff = h.handoff := by
  unfold syncStrategies
  split
  · rfl
  · rename_i active _
    refine List.foldlRecOn (motive := fun h' : Host => h'.handoff = h.handoff) _ _ ?_
      fun h' same id _ => (h'.cancelManager_handoff id).trans same
    exact List.foldlRecOn (motive := fun h' : Host => h'.handoff = h.handoff) active _ rfl
      fun h' same x _ => (h'.superviseStrategy_handoff tenant x).trans same

theorem notifyStrategies_handoff (h : Host) (tenant : TenantId) (strategies : List StrategyId) :
    (h.notifyStrategies leave tenant strategies).handoff = h.handoff := by
  unfold notifyStrategies
  refine List.foldlRecOn (motive := fun h' : Host => h'.handoff = h.handoff) _ _ ?_
    fun h' same id _ => (h'.notifyManager_handoff id).trans same
  split
  · rfl
  · exact syncStrategies_handoff h tenant

/-- Whatever it does about managers, a host announces an evaluation as its engine does. -/
theorem announce_handoff (h : Host) (r : Evaluation) :
    (h.announce leave r).2.handoff = { h.handoff with engine := (h.engine.announce r).2 } := by
  have notified := notifyStrategies_handoff
    (h.act (·.orderCancellations r.tenantId r.summary.cancelled)).2 r.tenantId r.summary.nextStrategyIds
  obtain ⟨engine, results⟩ := Handoff.mk.inj notified
  simp only [announce, act, Engine.announce, handoff] at engine results ⊢
  rw [engine, results.1]

theorem evaluateNow_handoff (h : Host) (supervised : m.owner = .supervisor) :
    (h.evaluateNow m).handoff = h.handoff.evaluate m.tenantId m.strategy := by
  simp only [evaluateNow, act, Handoff.evaluate, handoff]
  cases h.engine.evaluate m.tenantId m.strategy with
  | mk result engine =>
    cases result with
    | error => rfl
    | ok summary =>
      simp only [report, supervised]
      split
      · rfl
      · exact wakeAll_handoff _ _

theorem turnPublisher_handoff (h : Host) (l : LoopId) (running : h.supervisor.cancelled = false) :
    (h.turnPublisher l).handoff = { h.handoff.announce 0 with refused := [] } := by
  unfold turnPublisher
  rw [if_neg (by rw [running]; exact Bool.false_ne_true)]
  cases waiting : h.supervisor.results with
  | nil =>
    have none : h.handoff.results = [] := waiting
    rw [Handoff.announce, none]
    rfl
  | cons r rest =>
    have first : h.handoff.results = r :: rest := waiting
    rw [Handoff.announce_eq (congrArg (·[0]?) first), first]
    exact announce_handoff { h with supervisor := { h.supervisor with results := rest } } r

end Host

/-! ### Orders to cancel -/

/-- The attempt has numbers that a payload can hold. -/
structure Attempt.Writable (a : Attempt) : Prop where
  task : -9223372036854775808 ≤ a.id ∧ a.id ≤ 9223372036854775807
  retryCount : -2147483648 ≤ a.retryCount ∧ a.retryCount ≤ 2147483647

/-- The message orders an attempt of the tenant to be cancelled. -/
def Message.Orders (m : Message) (tenant : TenantId) (a : Attempt) : Prop :=
  m.tenantId = tenant ∧ m.kindName = MessageKind.taskCancelled.name ∧
    ∃ p ∈ decodePayloads CancelledPayload m.payloads, p.attempt = a

/-- To announce the evaluation is to order an attempt of the tenant to be cancelled. -/
def Evaluation.Orders (r : Evaluation) (tenant : TenantId) (a : Attempt) : Prop :=
  r.tenantId = tenant ∧ ∃ p ∈ r.summary.cancelled, p.task = a

/-- A message that waits to be handled orders the attempt to be cancelled. -/
def Handoff.Ordered (h : Handoff) (tenant : TenantId) (a : Attempt) : Prop :=
  ∃ n m, h.mail[n]? = some m ∧ n ∉ h.handled ∧ m.Orders tenant a

/-- An order to cancel the attempt is in an evaluation that waits to be announced, or in a message that
waits to be handled. -/
def Handoff.Pending (h : Handoff) (tenant : TenantId) (a : Attempt) : Prop :=
  (∃ r ∈ h.results, r.Orders tenant a) ∨ h.Ordered tenant a

theorem Admission.Summary.isEmpty_of_cancelled {r : Admission.Summary} {p : Admission.Placed}
    (gone : p ∈ r.cancelled) : ¬ r.isEmpty = true := by
  intro empty
  simp only [isEmpty, Bool.and_eq_true, List.isEmpty_iff] at empty
  rw [empty.1.2] at gone
  cases gone

theorem cancelled_orders {tenant : TenantId} {placed : List Admission.Placed} {p : Admission.Placed}
    (listed : p ∈ placed) (writable : p.task.Writable) :
    (Message.cancelled tenant (placed.map Engine.cancellation)).Orders tenant p.task := by
  refine ⟨rfl, rfl, Engine.cancellation p, ?_, rfl⟩
  refine List.mem_filterMap.mpr ⟨Codec.toBytes (Engine.cancellation p), ?_, ?_⟩
  · exact List.mem_map_of_mem (List.mem_map_of_mem listed)
  · exact CancelledPayload.ofBytes?_eq writable.task writable.retryCount

/-! ### The engine -/

namespace Engine

variable {e e' : Engine} {s s' : Store} {tenant : TenantId} {a : Attempt}

/-- The store was given at most one command, by which nothing was evicted, and messages about tasks were
added to those that there are. -/
structure Works (e e' : Engine) : Prop where
  store : ∀ s', e'.store = .sound s' → ∃ s, e.store = .sound s ∧
    (s' = s ∨ ∃ c more, c.evicts = false ∧ s.obey c = .ok (more, s'))
  mail : ∃ ms, e'.bus.published .tasks = e.bus.published .tasks ++ ms
  blocked : e'.bus.blocked = e.bus.blocked

theorem Works.of_posted {ms : List Message} (posted : Posted .tasks e e' ms)
    (store : e'.store = e.store) : Works e e' :=
  ⟨fun s' sound => ⟨s', store ▸ sound, Or.inl rfl⟩, ⟨_, posted.mail⟩, posted.blocked⟩

theorem Idle.works (idle : Idle e e') : Works e e' := by
  refine ⟨fun s' sound => ⟨s', idle.store s' sound, Or.inl rfl⟩, ⟨[], ?_⟩, by rw [idle.bus]⟩
  rw [idle.bus, List.append_nil]

theorem Performed.works {x : Effect} {c : Command} {more : List Attempt} (done : Performed e e' x)
    (store : e.store = .sound s) (spares : c.evicts = false)
    (obeyed : s.obey c = .ok (more, x.store)) : Works e e' := by
  refine ⟨fun s' sound => ?_, ⟨_, (done.posted .tasks).mail⟩, (done.posted .tasks).blocked⟩
  cases done.store.symm.trans sound
  exact ⟨s, store, Or.inr ⟨c, more, spares, obeyed⟩⟩

theorem handleTasks_works (e : Engine) (now : Instant) (tenant : TenantId) (kindName : String)
    (payloads : List ByteArray) : Works e (e.handleTasks now tenant kindName payloads).2 := by
  rcases e.handleTasks_cases now tenant kindName payloads with
    idle | ⟨kind, r, s, x, rfl, asked, store, served, done⟩
  · exact idle.works
  · obtain ⟨more, obeyed⟩ := serve_done served
    exact done.works store (by cases r <;> rfl) obeyed

theorem sweepOnce_works (e : Engine) (now : Instant) (kind : Sweep) (tenant : TenantId) :
    Works e (e.sweepOnce now kind tenant).2 := by
  rcases e.sweepOnce_cases now kind tenant with idle | ⟨s, x, store, swept, done⟩
  · exact idle.works
  · obtain ⟨more, obeyed⟩ := sweep_done swept
    exact done.works store rfl obeyed

theorem command_works (e : Engine) {c : Command} (spares : c.evicts = false) :
    Works e (e.write fun s => s.obey c).2 := by
  refine ⟨fun s' sound => ?_, ⟨[], (List.append_nil _).symm⟩, rfl⟩
  obtain ⟨s, was, same | ⟨more, done⟩⟩ := Guarded.write_sound sound
  · exact ⟨s, was, Or.inl same⟩
  · exact ⟨s, was, Or.inr ⟨c, more, spares, done⟩⟩

/-- Once a message is handled, the attempts that it orders to be cancelled are over. -/
theorem handleTasks_cancels {now : Instant} {m : Message} (sound : s.Sound)
    (store : e.store = .sound s) (current : s.Current tenant a) (orders : m.Orders tenant a)
    (store' : (e.handleTasks now m.tenantId m.kindName m.payloads).2.store = .sound s') :
    s'.Past a := by
  obtain ⟨rfl, kind, p, listed, rfl⟩ := orders
  have asked : Request.ofPayloads .taskCancelled m.payloads =
    .ok (.cancel (decodePayloads CancelledPayload m.payloads)) := rfl
  have some : (Request.cancel (decodePayloads CancelledPayload m.payloads)).isEmpty = false := by
    cases given : decodePayloads CancelledPayload m.payloads with
    | nil =>
      rw [given] at listed
      cases listed
    | cons => rfl
  obtain ⟨-, done⟩ := @handleTasks_served e now m.tenantId _ _ _ _ _ asked some store rfl
  rw [kind] at store'
  cases done.store.symm.trans store'
  exact cancel_past sound current (List.mem_map_of_mem listed)

theorem announce_posted (e : Engine) (r : Evaluation) :
    Posted .tasks e (e.announce r).2 (if r.summary.cancelled ≠ [] then
      [Message.cancelled r.tenantId (r.summary.cancelled.map cancellation)] else []) ∧
      (e.announce r).2.store = e.store := by
  obtain ⟨ordered, same⟩ := e.orderCancellations_posted .tasks r.tenantId r.summary.cancelled
  obtain ⟨announced, same'⟩ := announceQueued_posted
    (e.orderCancellations r.tenantId r.summary.cancelled).2 QueueName.scheduler_tasks r.tenantId
    r.summary.queued
  have both := ordered.trans announced
  simp only [and_true, List.append_nil] at both
  exact ⟨both, same'.trans same⟩

theorem announce_works (e : Engine) (r : Evaluation) : Works e (e.announce r).2 :=
  .of_posted (e.announce_posted r).1 (e.announce_posted r).2

/-- When an evaluation is announced, the order to cancel what was evicted is sent, unless messages about
tasks are refused; then there is a fault. -/
theorem announce_sends (e : Engine) (r : Evaluation) (some : r.summary.cancelled ≠ []) :
    if e.bus.isBlocked QueueName.tasks.text then (e.announce r).1 ≠ []
    else (e.announce r).1 = [] ∧ (e.announce r).2.bus.published .tasks =
      e.bus.published .tasks ++ [Message.cancelled r.tenantId (r.summary.cancelled.map cancellation)] := by
  have filled : r.summary.cancelled.isEmpty = false := by simpa using some
  have mail := (e.announce_posted r).1.mail
  rw [if_pos some] at mail
  split
  · rename_i refused
    simp [announce, orderCancellations, filled, send, Bus.send, refused]
  · rename_i free
    refine ⟨by simp [announce, orderCancellations, filled, send, Bus.send, free], ?_⟩
    rwa [if_neg free] at mail

end Engine

/-! ### In hand -/

namespace Handoff

variable {h h' : Handoff} {s s' : Store} {tenant : TenantId} {a : Attempt}

/-- The attempt is over, or it is the current one of its task and an order to cancel it is pending or was
refused. -/
def Accounts (h : Handoff) (s : Store) (a : Attempt) : Prop :=
  s.Past a ∨ ∃ tenant, s.Current tenant a ∧ (a.Writable → h.Pending tenant a ∨ a ∈ h.refused)

/-- Every attempt that was evicted is accounted for. -/
structure InHand (h : Handoff) : Prop where
  placed : ∀ n ∈ h.handled, n < h.mail.length
  reached : ∀ s, h.engine.store = .sound s →
    ∃ evicted, Reachable evicted s ∧ ∀ a ∈ evicted, h.Accounts s a

theorem Accounts.kept (account : h.Accounts s a) (past : s.Past a → s'.Past a)
    (current : ∀ tenant, s.Current tenant a → s'.Past a ∨ s'.Current tenant a)
    (refused : ∀ a ∈ h.refused, a ∈ h'.refused)
    (passed : ∀ tenant, s.Current tenant a → a.Writable → h.Pending tenant a →
      s'.Past a ∨ h'.Pending tenant a ∨ a ∈ h'.refused) : h'.Accounts s' a := by
  rcases account with gone | ⟨tenant, now, pending⟩
  · exact Or.inl (past gone)
  rcases current tenant now with gone | later
  · exact Or.inl gone
  by_cases writable : a.Writable
  · rcases pending writable with pending | lost
    · rcases passed tenant now writable pending with gone | still
      · exact Or.inl gone
      · exact Or.inr ⟨tenant, later, fun _ => still⟩
    · exact Or.inr ⟨tenant, later, fun _ => Or.inr (refused a lost)⟩
  · exact Or.inr ⟨tenant, later, fun fits => absurd fits writable⟩

/-- What the engine does keeps everything in hand, if the orders that are pending stay so until the
attempt is over or the order is refused. -/
theorem InHand.works (hand : h.InHand) (works : Engine.Works h.engine h'.engine)
    (placed : ∀ n ∈ h'.handled, n < h'.mail.length) (refused : ∀ a ∈ h.refused, a ∈ h'.refused)
    (passed : ∀ s s' tenant a, h.engine.store = .sound s → h'.engine.store = .sound s' → s.Sound →
      s.Current tenant a → a.Writable → h.Pending tenant a →
      s'.Past a ∨ h'.Pending tenant a ∨ a ∈ h'.refused) : h'.InHand := by
  refine ⟨placed, fun s' store' => ?_⟩
  obtain ⟨s, store, step⟩ := works.store s' store'
  obtain ⟨evicted, reached, account⟩ := hand.reached s store
  have passed := fun tenant a => passed s s' tenant a store store' reached.sound
  -- At most one command was carried out, and it evicted nothing.
  rcases step with rfl | ⟨c, more, spares, done⟩
  · exact ⟨evicted, reached, fun a gone =>
      (account a gone).kept id (fun _ => Or.inr) refused fun tenant => passed tenant a⟩
  · have after := reached.after c done
    rw [obey_spares spares done, List.append_nil] at after
    exact ⟨evicted, after, fun a gone => (account a gone).kept
      (fun past => obey_past reached.sound past done)
      (fun _ current => obey_current reached.sound current done) refused fun tenant => passed tenant a⟩

theorem Ordered.kept (ordered : h.Ordered tenant a) (handled : h'.handled = h.handled)
    (mail : ∃ ms, h'.mail = h.mail ++ ms) : h'.Ordered tenant a := by
  obtain ⟨ms, mail⟩ := mail
  obtain ⟨n, m, here, waits, orders⟩ := ordered
  refine ⟨n, m, ?_, handled ▸ waits, orders⟩
  rw [mail, List.getElem?_append_left (List.getElem?_eq_some_iff.mp here).1, here]

/-- Of the orders that wait to be handled only those of a message that is handled do so no more. -/
theorem Ordered.handled {n : Nat} {m : Message} (ordered : h.Ordered tenant a)
    (here : h.mail[n]? = some m) (mail : ∃ ms, h'.mail = h.mail ++ ms)
    (handled : h'.handled = n :: h.handled) : m.Orders tenant a ∨ h'.Ordered tenant a := by
  obtain ⟨ms, mail⟩ := mail
  obtain ⟨k, m', here', waits, orders⟩ := ordered
  by_cases this : k = n
  · subst this
    cases here.symm.trans here'
    exact Or.inl orders
  · refine Or.inr ⟨k, m', ?_, ?_, orders⟩
    · rw [mail, List.getElem?_append_left (List.getElem?_eq_some_iff.mp here').1, here']
    · rw [handled]
      exact fun done => (List.mem_cons.mp done).elim this waits

/-- Of the evaluations that wait only the one that is announced does so no more. -/
theorem orders_erased {n : Nat} {r r' : Evaluation} (here : h.results[n]? = some r)
    (listed : r' ∈ h.results) : r' = r ∨ r' ∈ h.results.eraseIdx n := by
  obtain ⟨k, here'⟩ := List.mem_iff_getElem?.mp listed
  by_cases this : k = n
  · subst this
    exact Or.inl (Option.some.inj (here'.symm.trans here))
  · exact Or.inr (List.mem_eraseIdx_iff_getElem?.mpr ⟨k, this, here'⟩)

/-! ### Actions -/

theorem InHand.engine {e : Engine} (hand : h.InHand) (works : Engine.Works h.engine e) :
    InHand { h with engine := e } := by
  obtain ⟨ms, mail⟩ := works.mail
  refine hand.works works (fun n done => ?_) (fun _ => id) ?_
  · change n < (e.bus.published .tasks).length
    rw [mail, List.length_append]
    exact Nat.lt_add_right _ (hand.placed n done)
  · intro _ _ tenant a _ _ _ _ _ pending
    exact Or.inr (Or.inl (pending.imp_right fun ordered => ordered.kept rfl ⟨ms, mail⟩))

/-- A message that is handled is done with, as the attempts that it orders to be cancelled are over. -/
theorem InHand.deliver (hand : h.InHand) (now : Instant) (n : Nat) : (h.deliver now n).InHand := by
  unfold Handoff.deliver
  split
  · exact hand
  · rename_i m here
    have works := h.engine.handleTasks_works now m.tenantId m.kindName m.payloads
    split
    · rename_i engine result
      have left : (h.engine.handleTasks now m.tenantId m.kindName m.payloads).2 = engine := by
        rw [result]
      rw [left] at works
      refine hand.works works (fun k done => ?_) (fun _ => id) ?_
      · rcases List.mem_cons.mp done with rfl | before
        · obtain ⟨ms, mail⟩ := works.mail
          refine Nat.lt_of_lt_of_le (List.getElem?_eq_some_iff.mp here).1 ?_
          exact (List.prefix_append _ ms).length_le.trans_eq (congrArg _ mail.symm)
        · exact (hand.engine works).placed k before
      · intro s s' tenant a store store' sound current _ pending
        rcases pending with waits | ordered
        · exact Or.inr (Or.inl (Or.inl waits))
        · have passed : m.Orders tenant a ∨
              Ordered { h with engine, handled := n :: h.handled } tenant a :=
            ordered.handled here works.mail rfl
          rcases passed with orders | still
          · exact Or.inl (Engine.handleTasks_cancels sound store current orders (left ▸ store'))
          · exact Or.inr (Or.inl (Or.inr still))
    · rename_i result
      rw [result] at works
      exact hand.engine works

/-- The orders of an evaluation that is announced are sent, or they are refused. -/
theorem orders_announced {n : Nat} {r : Evaluation} (hand : h.InHand) (here : h.results[n]? = some r)
    (orders : r.Orders tenant a) (writable : a.Writable) :
    (h.announce n).Ordered tenant a ∨ a ∈ (h.announce n).refused := by
  obtain ⟨rfl, p, gone, rfl⟩ := orders
  have sent := h.engine.announce_sends r (List.ne_nil_of_mem gone)
  rw [announce_eq here]
  split at sent
  · refine Or.inr ?_
    dsimp only
    rw [if_neg (by simpa using sent)]
    exact List.mem_append_right _ (List.mem_map_of_mem gone)
  · refine Or.inl ⟨h.mail.length, _, ?_, fun done => ?_, cancelled_orders gone writable⟩
    · change ((h.engine.announce r).2.bus.published .tasks)[h.mail.length]? = _
      rw [sent.2]
      exact List.getElem?_concat_length
    · exact Nat.lt_irrefl _ (hand.placed _ done)

theorem InHand.announce (hand : h.InHand) (n : Nat) : (h.announce n).InHand := by
  cases here : h.results[n]? with
  | none => rwa [Handoff.announce, here]
  | some r =>
    have sent := fun tenant a => @orders_announced h tenant a n r hand here
    have works := h.engine.announce_works r
    rw [announce_eq here] at sent ⊢
    refine hand.works works (hand.engine works).placed (fun a lost => ?_) ?_
    · dsimp only
      split
      · exact lost
      · exact List.mem_append_left _ lost
    · intro s s' tenant a _ _ _ _ writable pending
      refine Or.inr ?_
      rcases pending with ⟨r', listed, orders⟩ | ordered
      · rcases orders_erased here listed with rfl | waits
        · exact (sent tenant a orders writable).imp_left Or.inr
        · exact Or.inl (Or.inl ⟨r', waits, orders⟩)
      · exact Or.inl (Or.inr (ordered.kept rfl works.mail))

theorem evaluate_sound (store : h.engine.store = .sound s) (tenant : TenantId) (strategy : Strategy) :
    ∃ engine, engine.store = .sound (s.runStrategy tenant strategy).2 ∧ engine.bus = h.engine.bus ∧
      h.evaluate tenant strategy = { h with
        engine
        results := if (s.runStrategy tenant strategy).1.isEmpty then h.results
          else h.results ++ [⟨tenant, strategy.id, (s.runStrategy tenant strategy).1⟩] } := by
  simp only [Handoff.evaluate, Engine.evaluate, Engine.runStrategy, Engine.write, store]
  refine ⟨_, ?_, ?_, rfl⟩ <;> rfl

/-- What a strategy evicts is in the result of its evaluation. -/
theorem InHand.evaluate (hand : h.InHand) (tenant : TenantId) (strategy : Strategy) :
    (h.evaluate tenant strategy).InHand := by
  cases store : h.engine.store with
  | poisoned =>
    simp only [Handoff.evaluate, Engine.evaluate, Engine.runStrategy, Engine.write, store]
    exact ⟨hand.placed, fun _ sound => by cases sound⟩
  | sound s =>
    obtain ⟨evicted, reached, account⟩ := hand.reached s store
    have ran : s.obey (.runStrategy tenant strategy) = .ok
      ((s.runStrategy tenant strategy).1.cancelled.map (·.task), (s.runStrategy tenant strategy).2) := rfl
    obtain ⟨engine, store', bus, result⟩ := evaluate_sound store tenant strategy
    have mail : engine.bus.published .tasks = h.mail := by rw [bus, Handoff.mail]
    have kept : ∀ r ∈ h.results, r ∈ (h.evaluate tenant strategy).results := by
      intro r listed
      rw [result]
      dsimp only
      split
      · exact listed
      · exact List.mem_append_left _ listed
    rw [result] at kept ⊢
    refine ⟨fun n done => ?_, fun s' sound => ?_⟩
    · change n < (engine.bus.published .tasks).length
      rw [mail]
      exact hand.placed n done
    · cases store'.symm.trans sound
      refine ⟨_, reached.after _ ran, fun a gone => ?_⟩
      rcases List.mem_append.mp gone with before | now
      · refine (account a before).kept (fun past => obey_past reached.sound past ran)
          (fun _ current => obey_current reached.sound current ran) (fun _ => id) ?_
        refine fun owner _ _ pending => Or.inr (Or.inl (pending.imp ?_ ?_))
        · exact fun held => held.imp fun r waits => waits.imp_left (kept r)
        · exact fun ordered => ordered.kept rfl ⟨[], by rw [List.append_nil]; exact mail⟩
      · obtain ⟨p, listed, same⟩ := List.mem_map.mp now
        refine Or.inr ⟨tenant, reached.sound.evicted_current now, fun _ => Or.inl (Or.inl ?_)⟩
        refine ⟨⟨tenant, strategy.id, (s.runStrategy tenant strategy).1⟩, ?_, rfl, p, listed, same⟩
        dsimp only
        rw [if_neg (Admission.Summary.isEmpty_of_cancelled listed)]
        exact List.mem_append_right _ (List.mem_singleton.mpr rfl)

theorem InHand.act (hand : h.InHand) (action : Action) : (h.act action).InHand := by
  cases action with
  | command c spares => exact hand.engine (h.engine.command_works spares)
  | sweep now kind tenant => exact hand.engine (h.engine.sweepOnce_works now kind tenant)
  | handle now tenant kindName payloads =>
    exact hand.engine (h.engine.handleTasks_works now tenant kindName payloads)
  | block leads => exact ⟨hand.placed, hand.reached⟩
  | evaluate tenant strategy => exact hand.evaluate tenant strategy
  | announce n => exact hand.announce n
  | deliver now n => exact hand.deliver now n

theorem InHand.run {actions : List Action} (hand : h.InHand) : (h.run actions).InHand := by
  induction actions generalizing h with
  | nil => exact hand
  | cons a rest ih => exact ih (hand.act a)

theorem start_inHand (settings : Settings) : (start settings).InHand := by
  refine ⟨nofun, fun s store => ?_⟩
  cases store
  exact ⟨[], .empty _, nofun⟩

/-! ### Refusals -/

/-- From this action on, messages about tasks are refused. -/
def Action.Refuses : Action → Prop
  | .block leads => ({ blocked := leads } : Bus).isBlocked QueueName.tasks.text = true
  | _ => False

/-- Messages about tasks are accepted, and no order was refused. -/
def Open (h : Handoff) : Prop :=
  h.engine.bus.isBlocked QueueName.tasks.text = false ∧ h.refused = []

theorem Open.engine {e : Engine} (free : h.Open) (works : Engine.Works h.engine e) :
    Open { h with engine := e } := by
  refine ⟨?_, free.2⟩
  change e.bus.isBlocked QueueName.tasks.text = false
  rw [Bus.isBlocked, works.blocked]
  exact free.1

theorem Open.announce (free : h.Open) (n : Nat) : (h.announce n).Open := by
  cases here : h.results[n]? with
  | none => rwa [Handoff.announce, here]
  | some r =>
    have sends := h.engine.announce_sends r
    rw [if_neg (by rw [free.1]; exact Bool.false_ne_true)] at sends
    rw [announce_eq here]
    refine ⟨(free.engine (h.engine.announce_works r)).1, ?_⟩
    dsimp only
    split
    · exact free.2
    · rename_i faulty
      by_cases none : r.summary.cancelled = []
      · rw [none, free.2]
        rfl
      · exact absurd (by rw [(sends none).1]; rfl) faulty

theorem Open.act (free : h.Open) {action : Action} (accepts : ¬ action.Refuses) :
    (h.act action).Open := by
  cases action with
  | command c spares => exact free.engine (h.engine.command_works spares)
  | sweep now kind tenant => exact free.engine (h.engine.sweepOnce_works now kind tenant)
  | handle now tenant kindName payloads =>
    exact free.engine (h.engine.handleTasks_works now tenant kindName payloads)
  | block leads => exact ⟨eq_false_of_ne_true accepts, free.2⟩
  | announce n => exact free.announce n
  | evaluate tenant strategy =>
    cases store : h.engine.store with
    | poisoned =>
      simp only [Handoff.act, Handoff.evaluate, Engine.evaluate, Engine.runStrategy, Engine.write, store]
      exact free
    | sound s =>
      obtain ⟨engine, -, bus, result⟩ := evaluate_sound store tenant strategy
      rw [Handoff.act, result]
      refine ⟨?_, free.2⟩
      change engine.bus.isBlocked QueueName.tasks.text = false
      rw [bus]
      exact free.1
  | deliver now n =>
    rw [Handoff.act, Handoff.deliver]
    split
    · exact free
    · rename_i m _
      have works := h.engine.handleTasks_works now m.tenantId m.kindName m.payloads
      split <;> rename_i result <;> rw [result] at works
      · exact ⟨(free.engine works).1, free.2⟩
      · exact free.engine works

theorem Open.run {actions : List Action} (free : h.Open) (accepts : ∀ x ∈ actions, ¬ x.Refuses) :
    (h.run actions).Open := by
  induction actions generalizing h with
  | nil => exact free
  | cons first rest ih =>
    obtain ⟨now, later⟩ := List.forall_mem_cons.mp accepts
    exact ih (free.act now) later

variable {settings : Settings} {actions : List Action} {t : Task}

/-- A task that waits has a place in its queue or a slot, or an order to cancel its attempt is in a result
or a message that waits, unless messages about tasks were refused at some time and the order was lost. -/
theorem waiting_in_hand (store : ((start settings).run actions).engine.store = .sound s)
    (ht : t ∈ s.tasks) (queued : t.state = .queued) (writable : t.attempt.Writable) :
    (∃ q ∈ s.queueItems, q.task = t.attempt) ∨ (∃ x ∈ s.slots, x.task = t.attempt) ∨
      ((start settings).run actions).Pending t.tenantId t.attempt ∨
        (t.attempt ∈ ((start settings).run actions).refused ∧ ∃ x ∈ actions, x.Refuses) := by
  have hand : ((start settings).run actions).InHand := (start_inHand settings).run
  obtain ⟨evicted, reached, account⟩ := hand.reached s store
  have standing := reached.sound.standing t ht
  rcases reached.kept t ht queued with gone | ⟨q, hq, mine⟩ | ⟨x, hx, _⟩
  · refine Or.inr (Or.inr ?_)
    rcases account t.attempt gone with past | ⟨tenant, ⟨u, hu, same, rfl⟩, pending⟩
    · have ended := past.ended reached.sound ht rfl
      rw [queued] at ended
      cases ended
    · obtain rfl := reached.sound.ordered.eq_of_id hu ht (congrArg Attempt.id same)
      refine (pending writable).imp_right fun lost => ⟨lost, ?_⟩
      by_contra accepted
      have free : ((start settings).run actions).Open :=
        Open.run ⟨rfl, rfl⟩ fun x hx refuses => accepted ⟨x, hx, refuses⟩
      rw [free.2] at lost
      cases lost
  · exact Or.inl ⟨q, hq, by rw [(standing.item q hq mine).1]⟩
  · exact Or.inr (Or.inl ⟨x, (mem_slotsFor.mp hx).1, (standing.own x hx).2.1⟩)

/-! ### An order that is lost -/

/-- If messages about tasks are refused when an evaluation is announced, then its orders are gone. -/
theorem announce_refused {n : Nat} {r : Evaluation} (here : h.results[n]? = some r)
    (some : r.summary.cancelled ≠ [])
    (refuses : h.engine.bus.isBlocked QueueName.tasks.text = true) :
    (h.announce n).engine.store = h.engine.store ∧ (h.announce n).mail = h.mail ∧
      (h.announce n).results = h.results.eraseIdx n ∧
      (h.announce n).refused = h.refused ++ r.summary.cancelled.map (·.task) := by
  obtain ⟨posted, store⟩ := h.engine.announce_posted r
  have mail := posted.mail
  have sends := h.engine.announce_sends r some
  rw [if_pos refuses, List.append_nil] at mail
  rw [if_pos refuses] at sends
  rw [announce_eq here]
  refine ⟨store, mail, rfl, if_neg ?_⟩
  rwa [List.isEmpty_iff]

/-- Two mails to the same user are ordered, of which one is not let in, while messages about tasks are
refused. -/
def unsent : List Action := [
  .command (.registerWorkflow ⟨3⟩ oneForEachUser) rfl,
  .command (.createPartitions ⟨0⟩) rfl,
  .command (.triggerRuns {} ⟨0⟩ ⟨3⟩ [mailFor "ann" ⟨7⟩, mailFor "ann" ⟨8⟩]) rfl,
  .block [QueueName.tasks.text],
  .evaluate ⟨3⟩ oneOfUser,
  .announce 0]

/-- The first mail waits for its next strategy, and the second one nowhere. -/
def mailedOnce : Store := mailed.carryOutAll 1 [firstMail.letIn, secondMail.cancel]

theorem mailedOnce_tasks : mailedOnce.tasks.map (fun t => (t.attempt, t.state)) =
    [(⟨1, 0⟩, .queued), (⟨2, 0⟩, .queued)] := rfl

theorem mailedOnce_slots : mailedOnce.slots.map (·.task) = [⟨1, 0⟩, ⟨1, 0⟩] := rfl

theorem unsent_left : ((start {}).run unsent).engine.store = .sound mailedOnce ∧
    ((start {}).run unsent).mail = [] ∧ ((start {}).run unsent).results = [] := by
  have ran : (mailed.runStrategy ⟨3⟩ oneOfUser).2 = mailedOnce :=
    (Prod.mk.inj (Except.ok.inj mailed_run)).2
  have gone : (mailed.runStrategy ⟨3⟩ oneOfUser).1.cancelled.map (·.task) = [⟨2, 0⟩] :=
    (Prod.mk.inj (Except.ok.inj mailed_run)).1
  obtain ⟨p, listed, -⟩ := List.mem_map.mp (gone ▸ List.mem_singleton.mpr rfl)
  obtain ⟨engine, store, bus, evaluated⟩ := evaluate_sound (h := (start {}).run (unsent.take 4))
    (s := mailed) rfl ⟨3⟩ oneOfUser
  rw [if_neg (Admission.Summary.isEmpty_of_cancelled listed)] at evaluated
  have run : (start {}).run unsent =
    (((start {}).run (unsent.take 4)).evaluate ⟨3⟩ oneOfUser).announce 0 := rfl
  have refuses : engine.bus.isBlocked QueueName.tasks.text = true := by
    rw [bus]
    change ({ blocked := [QueueName.tasks.text] } : Bus).isBlocked QueueName.tasks.text = true
    decide +kernel
  obtain ⟨store', mail, results, -⟩ := announce_refused
    (h := { engine, results := [⟨⟨3⟩, oneOfUser.id, (mailed.runStrategy ⟨3⟩ oneOfUser).1⟩] })
    (n := 0) rfl (List.ne_nil_of_mem listed) refuses
  rw [run, evaluated]
  refine ⟨store'.trans (store.trans (congrArg _ ran)), mail.trans ?_, results⟩
  rw [Handoff.mail, bus]
  rfl

/-- It is not ordered to be cancelled any more. -/
theorem unsent_lost : ∃ s, ((start {}).run unsent).engine.store = .sound s ∧
    ∃ t ∈ s.tasks, t.attempt = ⟨2, 0⟩ ∧ t.state = .queued ∧
      ¬ ((start {}).run unsent).Pending t.tenantId t.attempt ∧
      t.attempt ∈ ((start {}).run unsent).refused ∧ ∃ x ∈ unsent, x.Refuses := by
  obtain ⟨store, mail, results⟩ := unsent_left
  have listed : (⟨2, 0⟩, TaskState.queued) ∈ mailedOnce.tasks.map (fun t => (t.attempt, t.state)) := by
    rw [mailedOnce_tasks]
    exact List.mem_cons_of_mem _ List.mem_cons_self
  obtain ⟨t, ht, same⟩ := List.mem_map.mp listed
  obtain ⟨attempt, queued⟩ := Prod.mk.inj same
  have forgotten : ¬ ((start {}).run unsent).Pending t.tenantId t.attempt := by
    rintro (⟨r, waits, _⟩ | ⟨n, m, here, _⟩)
    · rw [results] at waits
      cases waits
    · rw [mail] at here
      cases here
  have writable : t.attempt.Writable := by
    rw [attempt]
    constructor <;> decide
  refine ⟨_, store, t, ht, attempt, queued, forgotten, ?_⟩
  rcases waiting_in_hand store ht queued writable with ⟨q, hq, _⟩ | ⟨x, hx, own⟩ | pending | lost
  · have none : mailedOnce.queueItems = [] := rfl
    rw [none] at hq
    cases hq
  · have other : x.task ∈ mailedOnce.slots.map (·.task) := List.mem_map_of_mem hx
    rw [mailedOnce_slots, own, attempt] at other
    exact absurd other (by decide)
  · exact absurd pending forgotten
  · exact lost

end Handoff

end WorkflowEngine
