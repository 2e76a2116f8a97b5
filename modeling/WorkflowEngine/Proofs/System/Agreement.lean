import WorkflowEngine.Proofs.System.Outline
import WorkflowEngine.Proofs.System.Publication

/-!
Along every run the notices tell what happened to the store, and the read model mirrors those that it was
given. So in the end a row shows how its task ended, unless it shows the deadline that an earlier attempt
missed.
-/

namespace WorkflowEngine

open Fallible

namespace Engine

variable {x : Engine} {s : Store} {ns : List Notice} {d k : Nat} {now : Instant} {tenant : TenantId}

theorem foldShare_mirrors {table : Table} {share : Nat} {m' : ReadModel}
    (mirror : ∀ m, x.readModel = .sound m → Mirror s m x.cache.keys ns d)
    (h : (x.foldShare now tenant table share).2.readModel = .sound m') :
    Mirror s m' (x.foldShare now tenant table share).2.cache.keys ns d := by
  have passed : ∀ {op : ReadModelOp} {f : ReadModel → Except Fault (Nat × ReadModel)},
      (∀ m n m', Mirror s m x.cache.keys ns d → f m = .ok (n, m') → Mirror s m' x.cache.keys ns d) →
      ∀ m', (x.writeModel op f).2.readModel = .sound m' →
        Mirror s m' (x.writeModel op f).2.cache.keys ns d := by
    intro op f keeps m' h
    rcases writeModel_cases x op f with ⟨n, m, m'', model, done, result⟩ | ⟨_, g, result, unchanged⟩
    · rw [result] at h ⊢
      cases h
      exact keeps m n m' (mirror m model) done
    · rw [result] at h ⊢
      exact mirror m' (unchanged m' h)
  have tasks : ∀ m n m', Mirror s m x.cache.keys ns d →
      m.foldTasks tenant share x.settings.reconcileBatchLimit now = .ok (n, m') →
        Mirror s m' x.cache.keys ns d := by
    intro m n m' mirror done
    exact mirror.folded (ReadModel.foldTasks_coherent mirror.coherent done)
      (ReadModel.foldTasks_grows mirror.coherent done) (ReadModel.foldTasks_same done).1
  have dags : ∀ m n m', Mirror s m x.cache.keys ns d →
      m.foldDags tenant share x.settings.reconcileBatchLimit now = .ok (n, m') →
        Mirror s m' x.cache.keys ns d := by
    intro m n m' mirror done
    obtain ⟨rows, log, pending⟩ := ReadModel.foldDags_same done
    obtain ⟨coherent, grows⟩ := mirror.coherent.same rows log pending
    exact mirror.folded coherent grows log
  cases table with
  | dags => exact passed dags m' h
  | tasks | runs => exact passed tasks m' h

/-! ### Messages -/

theorem reached_recovered (context : String) (result : Except Fault Unit) :
    reached d k (x.recovered context result).1 = reached d k result := by
  cases result with
  | ok => rfl
  | error f => cases f <;> rfl

/-- Whatever comes of a message that was published, the read model mirrors the notices. -/
theorem handleReadModel_receives {n : Notice} (ledger : Ledger s ns) (le : k ≤ d)
    (mirror : ∀ m, x.readModel = .sound m → Mirror s m x.cache.keys ns d) (store : x.store = .sound s)
    (here : ns[k]? = some n) (now : Instant) :
    let handled := x.handleReadModel now n.message.tenantId n.message.kindName n.message.payloads
    Receives s ns (reached d k handled.1) x handled.2 := by
  have answered : ∀ (kind : MessageKind) (payloads : List ByteArray) (tenant : TenantId),
      Receives s ns (reached d k (x.ingest now tenant kind payloads).1) x
        (x.ingest now tenant kind payloads).2 →
      Receives s ns (reached d k (x.handleReadModel now tenant kind.name payloads).1) x
        (x.handleReadModel now tenant kind.name payloads).2 := by
    intro kind payloads tenant received
    simp only [handleReadModel, kind.parse_of_name]
    rw [reached_recovered]
    exact ⟨⟨received.aside.settings, received.aside.store, received.aside.bus⟩, received.mirrors⟩
  cases n with
  | tasks tenant ts =>
    exact answered .createdTask _ tenant (ingestTasks_receives ledger le mirror here rfl)
  | dags tenant ds => exact answered .createdDag _ tenant (ingestDags_receives le mirror here _)
  | events tenant ps =>
    exact answered .createMonitoringEvent _ tenant
      (ingestMonitoring_receives ledger le mirror store here now)

end Engine

namespace System

variable {h : System} {ns : List Notice} {a : Action} {e : Engine}

/-- The notices that were published tell of the store, and the read model mirrors those that it was
given. -/
structure Mirrored (h : System) (ns : List Notice) : Prop where
  free : h.engine.bus.blocked = []
  mail : h.mail = ns.map Notice.message
  ledger : ∀ s, h.engine.store = .sound s → Ledger s ns
  mirror : ∀ s m, h.engine.store = .sound s → h.engine.readModel = .sound m →
    Mirror s m h.engine.cache.keys ns h.delivered

theorem Mirrored.tells (mirrored : h.Mirrored ns) (tells : Engine.Tells h.engine e) :
    ∃ more, ({ h with engine := e } : System).Mirrored (ns ++ more) := by
  obtain ⟨more, posted, told⟩ := tells
  refine ⟨more, posted.blocked.trans mirrored.free, ?_, ?_, ?_⟩
  · rw [List.map_append, ← mirrored.mail]
    exact posted.published mirrored.free
  · intro s' store
    obtain ⟨s, was, announced⟩ := told s' store
    exact (mirrored.ledger s was).announced announced
  · intro s' m store model
    obtain ⟨s, was, announced⟩ := told s' store
    have before := mirrored.mirror s m was (posted.readModel.symm.trans model)
    rw [show e.cache = h.engine.cache from posted.cache]
    exact before.announced announced

theorem deliver_mirrored (mirrored : h.Mirrored ns) (now : Instant) (n : Nat) :
    (h.deliver now n).Mirrored ns := by
  unfold deliver
  split
  · exact mirrored
  · rename_i early
    split
    · exact mirrored
    · rename_i m listed
      rw [mirrored.mail, List.getElem?_map] at listed
      obtain ⟨notice, here, rfl⟩ := Option.map_eq_some_iff.mp listed
      have aside := h.engine.handleReadModel_aside now notice.message.tenantId notice.message.kindName
        notice.message.payloads
      have receives := fun s (store : h.engine.store = .sound s) =>
        Engine.handleReadModel_receives (mirrored.ledger s store) (Nat.le_of_not_lt early)
          (fun m => mirrored.mirror s m store) store here now
      split <;> rename_i result <;> rw [result] at aside receives
      all_goals
        refine ⟨(congrArg Bus.blocked aside.bus).trans mirrored.free,
          (congrArg (Bus.published · .readModel) aside.bus).trans mirrored.mail, ?_, ?_⟩
        · exact fun s store => mirrored.ledger s (aside.store ▸ store)
        · intro s m store model
          obtain ⟨_, _, mirror, _⟩ := (receives s (aside.store ▸ store)).mirrors m model
          exact mirror

theorem act_mirrored (mirrored : h.Mirrored ns) (ordinary : a.Ordinary) :
    ∃ more, (h.act a).Mirrored (ns ++ more) := by
  have sound : ∀ s, h.engine.store = .sound s → s.Sound := fun s store => (mirrored.ledger s store).sound
  cases a with
  | command c silent => exact mirrored.tells (Engine.command_tells sound silent)
  | handle now tenant kindName payloads =>
    exact mirrored.tells (Engine.handleTasks_tells sound ordinary.1 ordinary.2)
  | sweep now kind tenant => exact mirrored.tells (Engine.sweepOnce_tells sound ordinary)
  | evaluate tenant strategy => exact mirrored.tells (Engine.evaluate_tells sound tenant strategy)
  | deliver now n =>
    refine ⟨[], ?_⟩
    rw [List.append_nil]
    exact deliver_mirrored mirrored now n
  | pass now tenant table share =>
    have aside := h.engine.foldShare_aside now tenant table share
    refine ⟨[], ?_⟩
    rw [List.append_nil]
    refine ⟨(congrArg Bus.blocked aside.bus).trans mirrored.free,
      (congrArg (Bus.published · .readModel) aside.bus).trans mirrored.mail, ?_, ?_⟩
    · exact fun s store => mirrored.ledger s (aside.store ▸ store)
    · intro s m store model
      exact Engine.foldShare_mirrors (fun m => mirrored.mirror s m (aside.store ▸ store)) model

theorem run_mirrored {actions : List Action} (mirrored : h.Mirrored ns)
    (ordinary : ∀ a ∈ actions, a.Ordinary) : ∃ ns', (h.run actions).Mirrored ns' := by
  induction actions generalizing h ns with
  | nil => exact ⟨ns, mirrored⟩
  | cons a rest ih =>
    obtain ⟨more, next⟩ := act_mirrored mirrored (ordinary a List.mem_cons_self)
    exact ih next fun b hb => ordinary b (List.mem_cons_of_mem a hb)

theorem start_mirrored (settings : Settings) (days : TableDays) : (start settings days).Mirrored [] := by
  refine ⟨rfl, rfl, ?_, ?_⟩
  · intro s store
    cases store
    exact ledger_empty _
  · intro s m store model
    cases store
    cases model
    refine ⟨.empty rfl rfl rfl, Nat.le_refl 0, ?_, ?_, ?_, ?_, ?_, ?_⟩
    · exact fun _ he => absurd he List.not_mem_nil
    · exact fun _ he => absurd he List.not_mem_nil
    · exact fun _ he => absurd he List.not_mem_nil
    · exact fun _ _ early => absurd early (Nat.not_lt_zero _)
    · exact fun _ _ early => absurd early (Nat.not_lt_zero _)
    · exact fun _ hkey => absurd hkey List.not_mem_nil

/-! ### The end of a run -/

variable {s : Store} {m : ReadModel} {t : Task} {row : TaskRow}

theorem Mirrored.fits (mirrored : h.Mirrored ns) (store : h.engine.store = .sound s)
    (model : h.engine.readModel = .sound m) {e : TaskEvent} (he : e ∈ m.events) (ht : t ∈ s.tasks)
    (about : e.taskId = t.id) : e.report.Fits t := by
  obtain ⟨k, n, _, here, told⟩ := (mirrored.mirror s m store model).logged e he
  exact (mirrored.ledger s store).fits (List.mem_of_getElem? here) told ht about.symm

/-- Once everything was delivered the log holds how a task ended. -/
theorem Mirrored.leads (mirrored : h.Mirrored ns) (store : h.engine.store = .sound s)
    (model : h.engine.readModel = .sound m) (all : h.delivered = h.mail.length) (ht : t ∈ s.tasks)
    (ended : t.state.isTerminal = true) (writable : t.Writable) :
    ∃ e ∈ m.events, e.taskId = t.id ∧ e.mark = ⟨t.retryCount, t.state.shown⟩ ∧ m.Leads e := by
  have ledger := mirrored.ledger s store
  have mirror := mirrored.mirror s m store model
  obtain ⟨n, hn, r, hr, ends⟩ := ledger.ended t ht ended
  obtain ⟨k, hk, rfl⟩ := List.getElem_of_mem hn
  have given : k < h.delivered := by
    rw [all, mirrored.mail, List.length_map]
    exact hk
  obtain ⟨e, he, task, mark⟩ :=
    mirror.heard k _ given (List.getElem?_eq_getElem hk) r hr (ends.writable writable)
  have about : e.taskId = t.id := task.trans ends.task.symm
  refine ⟨e, he, about, ?_, fun e' he' same => ?_⟩
  · rw [mark, Report.mark, ends.attempt, ends.status]
  · have fits := mirrored.fits store model he' ht (same.trans about)
    have told : e'.mark = e'.report.mark := by
      rw [TaskEvent.mark, mirror.implied e' he']
      rfl
    rw [told, mark]
    exact fits.mark_le ends

/-- When everything was delivered and nothing waits for the task any more, its row shows how it ended, or
else a deadline that an earlier attempt has missed. -/
theorem ended_shown {settings : Settings} {days : TableDays} {actions : List Action}
    (ordinary : ∀ a ∈ actions, a.Ordinary)
    (store : ((start settings days).run actions).engine.store = .sound s)
    (model : ((start settings days).run actions).engine.readModel = .sound m)
    (all : ((start settings days).run actions).delivered =
      ((start settings days).run actions).mail.length)
    (ht : t ∈ s.tasks) (ended : t.state.isTerminal = true) (writable : t.Writable)
    (idle : m.waiting t.id = []) (shown : m.task? t.id = some row) :
    row.status = t.state.shown ∨ ∃ e ∈ m.events, e.taskId = t.id ∧ e.mark = row.mark ∧
      e.retryCount < t.retryCount ∧ e.eventType.isTimeout = true := by
  obtain ⟨ns, mirrored⟩ := run_mirrored (start_mirrored settings days) ordinary
  have mirror := mirrored.mirror s m store model
  obtain ⟨e, he, about, mark, leads⟩ := mirrored.leads store model all ht ended writable
  have status : e.status = t.state.shown := congrArg Mark.status mark
  have attempt : e.retryCount = t.retryCount := congrArg Mark.retryCount mark
  have counted : 0 ≤ e.retryCount := attempt ▸ (mirrored.ledger s store).counted t ht
  -- The event with the highest mark of the task waits no more, so the row shows a status as high.
  have reached : t.state.shown.rank ≤ row.status.rank := by
    rcases mirror.coherent.folded e he counted leads row (about ▸ shown) with ⟨p, hp, _⟩ | rank
    · rw [about, idle] at hp
      cases hp
    · exact status ▸ rank
  have terminal := TaskState.shown_rank ended
  rcases mirror.coherent.shown t.id row shown with fresh | ⟨e', he', about', mark'⟩
  · have queued : row.status = .queued := congrArg Mark.status fresh
    rw [queued] at reached
    exact absurd (Nat.lt_of_lt_of_le terminal reached) (Nat.lt_irrefl _)
  · -- What the row shows was reported, and a report is true of its task.
    have fits := mirrored.fits store model he' ht about'
    have shows : e'.eventType.status = row.status :=
      (mirror.implied e' he').symm.trans (congrArg Mark.status mark')
    rcases Nat.lt_or_eq_of_le reached with higher | same
    · obtain ⟨earlier, timeout⟩ := fits.timeout (shows ▸ higher)
      exact Or.inr ⟨e', he', about', mark', earlier, timeout⟩
    · exact Or.inl (Status.rank_injective same.symm)

/-! ### A mail that is sent late -/

/-- Five minutes after somebody has signed up, when the deadline of the mail is over. -/
def tooLate : Instant := ⟨300000000000⟩

def mailTask : Task := signedUp.tasks.headD default

theorem mailTask_fits : mailTask.Fits where
  id := ⟨by decide, by decide⟩
  insertedAt := show Instant.inRange 0 = true by decide
  tenantId := show _ < _ by decide
  externalId := show _ < _ by decide
  stepId := show _ < _ by decide
  workflowId := show _ < _ by decide
  dagId := nofun
  dagInsertedAt := nofun
  input := trivial
  additionalMetadata := .nil
  retryCount := ⟨by decide, by decide⟩
  internalRetryCount := ⟨by decide, by decide⟩
  retries := ⟨by decide, by decide⟩
  desiredWorkerId := nofun
  workerId := nofun
  concurrencyStrategyIds := nofun
  scheduleTimeoutSecs := ⟨by decide, by decide⟩
  stepTimeoutSecs := ⟨by decide, by decide⟩
  scheduleTimeoutAt := by
    rintro _ ⟨⟩
    exact show Instant.inRange 300000000000 = true by decide
  timeoutAt := nofun
  parentTaskId := nofun
  childIndex := nofun

/-- What the sweep comes to that finds the mail. -/
def overdueMail : SweepEffect :=
  match sweep .timeout signedUp.store ⟨1⟩ tooLate ⟨3⟩ 1000 with
  | .ok x => x
  | .error _ => { effect := { store := {}, ids := {} }, more := false }

theorem overdueMail_swept : sweep .timeout signedUp.store ⟨1⟩ tooLate ⟨3⟩ 1000 = .ok overdueMail := rfl

def resent : CompletedPayload := { taskId := 1, retryCount := 1 }

theorem resent_asked :
    Request.ofPayloads .taskCompleted [Codec.toBytes resent] = .ok (.complete [resent]) := by
  have read : (Codec.ofBytes? (Codec.toBytes resent) : Option CompletedPayload) = some resent := by
    rw [Codec.ofBytes?_toBytes]
    rfl
  have decoded : decodePayloads CompletedPayload [Codec.toBytes resent] = [resent] := by
    rw [decodePayloads, List.filterMap_cons, read]
    rfl
  exact congrArg (Except.ok ∘ Request.complete) decoded

def resentMail : Effect := Request.serveComplete overdueMail.effect.store ⟨1⟩ tooLate ⟨3⟩ [resent]

theorem resent_served :
    Request.serve overdueMail.effect.store ⟨1⟩ tooLate ⟨3⟩ (.complete [resent]) = .ok resentMail :=
  rfl

/-- Somebody signs up; the mail is not begun in time, queued again, and sent. The read model is told of
each of these after the other. -/
def lateMail : List Action :=
  [onSignup, .sweep tooLate .timeout ⟨3⟩,
    .handle tooLate ⟨3⟩ MessageKind.taskCompleted.name [Codec.toBytes resent],
    .deliver tooLate 0,
    .deliver tooLate 1, .pass tooLate ⟨3⟩ .tasks 1,
    .deliver tooLate 2, .pass tooLate ⟨3⟩ .tasks 1,
    .deliver tooLate 3, .pass tooLate ⟨3⟩ .tasks 1]

def thatDay : TableDays := { tasks := [Instant.date ⟨0⟩], runs := [Instant.date ⟨0⟩] }

def beforeSignup : Outline where
  settings := {}
  store := openedStore
  ids := {}
  mail := []
  model := { ReadModel.ofLimits 4 7 with days := thatDay }
  cache := .ofCapacity 100000
  delivered := 0

theorem beforeSignup_outlines : beforeSignup.Of ((start {} thatDay).run preparations) :=
  ⟨rfl, rfl, rfl, rfl, rfl, rfl, rfl, rfl, rfl⟩

/-- The mail was sent, and the read model has not been told of it. -/
def mailSent : Outline :=
  ((beforeSignup.perform (Request.ofCreation signedUp ⟨0⟩ ⟨3⟩)).perform overdueMail.effect).perform resentMail

theorem mailSent_created :
    mailSent.mail[mailSent.delivered]? = some (Message.createdTasks ⟨3⟩ [mailTask]) :=
  rfl

/-- There is a row for the mail. -/
def mailListed : Outline :=
  { mailSent with model := mailSent.model.addTask mailTask, delivered := 1 }

def missed : String := Overdue.reason ⟨mailTask, .schedule⟩

/-- What is reported of an attempt of the mail. -/
def reportOf (attempt : Int) (type : EventType) (payload : String) (message : Option String) :
    MonitoringPayload :=
  { MonitoringPayload.ofAttempt tooLate ⟨1, attempt⟩ type with payload, message }

theorem reportOf_fits {attempt : Int} {type : EventType} {payload : String} {message : Option String}
    (fits : FitsInt32 attempt) : (reportOf attempt type payload message).Fits where
  taskId := show FitsInt64 1 from ⟨by decide, by decide⟩
  retryCount := fits
  workerId := nofun
  timestamp := show Instant.inRange 300000000000 = true by decide

def requeuedReport : MonitoringPayload :=
  reportOf 1 .queued "" (some ("retrying after failure: " ++ missed))

def missedReport : MonitoringPayload := reportOf 0 .schedulingTimedOut "" (some missed)

def sentReport : MonitoringPayload := reportOf 1 .finished resent.output.text none

/-- The event that comes of a report. -/
def mailEvent (type : EventType) (p : MonitoringPayload) : TaskEvent where
  tenantId := ⟨3⟩
  taskId := 1
  taskInsertedAt := ⟨0⟩
  retryCount := p.retryCount
  eventType := type
  timestamp := tooLate
  payload := p.payload
  message := p.message

/-- The outline behind an event that was delivered and folded. -/
def heard (o : Outline) (e : TaskEvent) : Outline :=
  { o with
    model := match (o.model.insertEvents tooLate ⟨3⟩ [e]).foldTasks ⟨3⟩ 1 10000 tooLate with
      | .ok (_, m) => m
      | .error _ => o.model
    cache := o.cache.remember [e]
    delivered := o.delivered + 1 }

theorem report_heard {o : Outline} {type : EventType} {p : MonitoringPayload} (outline : o.Of h)
    (next : o.mail[o.delivered]? = some (Message.monitoring ⟨3⟩ [p])) (fits : p.Fits)
    (told : Engine.event? o.store ⟨3⟩ p = some (mailEvent type p))
    (new : (mailEvent type p).dedupKey ∉ o.cache.keys)
    (done : (o.model.insertEvents tooLate ⟨3⟩ [mailEvent type p]).foldTasks ⟨3⟩ 1
      o.settings.reconcileBatchLimit tooLate = .ok (1, (heard o (mailEvent type p)).model)) :
    (heard o (mailEvent type p)).Of
      ((h.act (.deliver tooLate o.delivered)).act (.pass tooLate ⟨3⟩ .tasks 1)) :=
  outline.heard next fits told new done

def allHeard : Outline :=
  heard (heard (heard mailListed (mailEvent .queued requeuedReport))
    (mailEvent .schedulingTimedOut missedReport)) (mailEvent .finished sentReport)

theorem lateMail_outlines (outline : beforeSignup.Of h) : allHeard.Of (h.run lateMail) := by
  have signed := outline.served signup_asked rfl signup_served
  have swept := signed.swept overdueMail_swept
  have sent := swept.served resent_asked rfl resent_served
  have listed : mailListed.Of _ := sent.tasks tooLate mailSent_created
    (List.forall_mem_singleton.mpr mailTask_fits) (List.forall_mem_singleton.mpr fun _ => nofun)
    (List.forall_mem_singleton.mpr (Nat.zero_le 126)) rfl
  have first : (heard mailListed (mailEvent .queued requeuedReport)).Of _ :=
    report_heard listed rfl (reportOf_fits ⟨by decide, by decide⟩) rfl List.not_mem_nil rfl
  -- In one pass with the event of the second attempt the deadline of the first one would give way. In a
  -- pass of its own it outranks the status of a row that waits.
  have second : (heard _ (mailEvent .schedulingTimedOut missedReport)).Of _ :=
    report_heard first rfl (reportOf_fits ⟨by decide, by decide⟩) rfl (by decide) rfl
  -- To be sent ranks lower than to be cancelled, so this leaves the row as it is.
  have third : (heard _ (mailEvent .finished sentReport)).Of _ :=
    report_heard second rfl (reportOf_fits ⟨by decide, by decide⟩) rfl (by decide) rfl
  simp only [run, lateMail, List.foldl_cons, List.foldl_nil]
  exact third

/-- The mail was sent, and its row shows that it was cancelled. -/
theorem lateMail_shown : ∃ s m t row,
    ((start {} thatDay).run (preparations ++ lateMail)).engine.store = .sound s ∧
    ((start {} thatDay).run (preparations ++ lateMail)).engine.readModel = .sound m ∧
    t ∈ s.tasks ∧ t.state = .completed ∧ m.task? t.id = some row ∧ row.status = .cancelled ∧
    ∃ e ∈ m.events, e.taskId = t.id ∧ e.mark = row.mark ∧ e.retryCount < t.retryCount ∧
      e.eventType.isTimeout = true := by
  have run : (start {} thatDay).run (preparations ++ lateMail) =
      ((start {} thatDay).run preparations).run lateMail := List.foldl_append ..
  have outline := lateMail_outlines beforeSignup_outlines
  rw [← run] at outline
  have ordinary : ∀ a ∈ preparations ++ lateMail, a.Ordinary := by
    have soon : Instant.inRange 0 = true := by decide
    have late : Instant.inRange 300000000000 = true := by decide
    simp [preparations, lateMail, onSignup, tooLate, Action.Ordinary, soon, late, MessageKind.name]
  have all : ((start {} thatDay).run (preparations ++ lateMail)).delivered =
      ((start {} thatDay).run (preparations ++ lateMail)).mail.length := by
    rw [outline.delivered, outline.mail]
    rfl
  let t := allHeard.store.tasks.headD default
  let row := allHeard.model.tasks.headD default
  have listed : t ∈ allHeard.store.tasks := List.mem_singleton_self _
  have completed : t.state = .completed := rfl
  have cancelled : row.status = .cancelled := rfl
  have shown : allHeard.model.task? t.id = some row := rfl
  refine ⟨_, _, t, row, outline.store, outline.model, listed, completed, shown, cancelled, ?_⟩
  have reached := ended_shown ordinary outline.store outline.model all listed rfl
    ⟨⟨by decide, by decide⟩, ⟨by decide, by decide⟩⟩ rfl shown
  refine reached.resolve_left fun same => ?_
  rw [cancelled, completed] at same
  cases same

end System

end WorkflowEngine
