import WorkflowEngine.Effect.Request
import WorkflowEngine.Effect.Sweep
import WorkflowEngine.Proofs.Bus.Broker
import WorkflowEngine.Proofs.Bus.Payload
import WorkflowEngine.Proofs.System.Chronicle

/-!
What the read model is told. Of the messages of an effect those for the read model are notices: of new
tasks, of new runs, and of events. The events say what the store has to report, and new tasks come
before anything that is said of them.
-/

namespace WorkflowEngine

open Fallible Store

/-- What a monitoring event reports, if its type is a known one. -/
def MonitoringPayload.report? (tenant : TenantId) (p : MonitoringPayload) : Option Report :=
  (EventType.ofName? p.eventType).map fun type => ⟨tenant, p.taskId, p.retryCount, type⟩

/-- A message for the read model, before it is written. -/
inductive Notice where
  | tasks (tenant : TenantId) (tasks : List Task)
  | dags (tenant : TenantId) (dags : List Dag)
  | events (tenant : TenantId) (payloads : List MonitoringPayload)

namespace Notice

def message : Notice → Message
  | tasks tenant ts => Message.createdTasks tenant ts
  | dags tenant ds => Message.createdDags tenant ds
  | events tenant ps => Message.monitoring tenant ps

def reports : Notice → List Report
  | tasks .. | dags .. => []
  | events tenant ps => ps.filterMap (·.report? tenant)

/-- The tasks that the read model hears of for the first time. -/
def created : Notice → List TaskId
  | tasks _ ts => ts.map (·.id)
  | dags .. | events .. => []

def Names (n : Notice) (i : TaskId) : Prop := i ∈ n.created ∨ ∃ r ∈ n.reports, r.taskId = i

/-- Its events are of instants of the calendar. -/
def Timely : Notice → Prop
  | tasks .. | dags .. => True
  | events _ ps => ∀ p ∈ ps, Instant.inRange p.timestamp.nanos = true

def ofTasks (tenant : TenantId) (ts : List Task) : List Notice :=
  if ts.isEmpty then [] else [tasks tenant ts]

def ofDags (tenant : TenantId) (ds : List Dag) : List Notice :=
  if ds.isEmpty then [] else [dags tenant ds]

def ofEvents (tenant : TenantId) (ps : List MonitoringPayload) : List Notice :=
  if ps.isEmpty then [] else [events tenant ps]

end Notice

/-! ### Messages for one queue -/

namespace Posting

variable {tenant : TenantId} {record : QueueName}

/-- The message, if it goes to the queue. Queues are told apart by their names. -/
def to? (record : QueueName) : Posting → Option Message
  | .ok p => if p.queue.text = record.text then some p.message else none
  | .error _ => none

def mail (record : QueueName) (postings : List Posting) : List Message :=
  postings.filterMap (to? record)

@[simp] theorem mail_append (ps qs : List Posting) :
    mail record (ps ++ qs) = mail record ps ++ mail record qs :=
  List.filterMap_append ..

theorem mail_other {postings : List Posting} (other : ∀ p ∈ postings, to? record p = none) :
    mail record postings = [] :=
  List.filterMap_eq_nil_iff.mpr other

@[simp] theorem mail_ofPayloads_other {α : Type} {queue : QueueName} {message : List α → Message}
    {payloads : List α} (other : queue.text ≠ record.text) :
    mail record (ofPayloads queue message payloads) = [] := by
  unfold ofPayloads
  split
  · rfl
  · simp [mail, to?, other]

@[simp] theorem mail_notice (other : ∀ partition, (QueueName.scheduler partition).text ≠ record.text) (s : Store)
    (message : List NoticePayload → Message) (payloads : List NoticePayload) :
    mail record (notice s tenant message payloads) = [] := by
  unfold notice
  split
  · rfl
  · split
    · rfl
    · split
      · rfl
      · simp [mail, to?, other]

@[simp] theorem mail_created (other : ∀ partition, (QueueName.scheduler partition).text ≠ record.text) (s : Store)
    (entries : List (String × List StrategyId)) : mail record (created s tenant entries) = [] :=
  mail_notice other ..

@[simp] theorem mail_released (other : ∀ partition, (QueueName.scheduler partition).text ≠ record.text)
    (s : Store) (tasks : List ReleasedTask) : mail record (released s tenant tasks) = [] :=
  mail_notice other ..

@[simp] theorem mail_stops (other : ∀ id, (QueueName.dispatcher id).text ≠ record.text) (s : Store)
    (attempts : List (Attempt × WorkerId)) : mail record (stops s tenant attempts) = [] := by
  refine mail_other fun p hp => ?_
  obtain ⟨⟨d, ps⟩, _, rfl⟩ := List.mem_map.mp hp
  simp [to?, other]

@[simp] theorem mail_internalEvents (other : QueueName.tasks.text ≠ record.text) (payloads : List InternalEventPayload) :
    mail record (internalEvents tenant payloads) = [] :=
  mail_ofPayloads_other other

@[simp] theorem mail_monitoring (payloads : List MonitoringPayload) :
    mail .readModel (monitoring tenant payloads) = (Notice.ofEvents tenant payloads).map Notice.message := by
  cases payloads <;> rfl

@[simp] theorem mail_createdTasks (tasks : List Task) :
    mail .readModel (ofPayloads .readModel (Message.createdTasks tenant) tasks) =
      (Notice.ofTasks tenant tasks).map Notice.message := by
  cases tasks <;> rfl

@[simp] theorem mail_createdDags (dags : List Dag) :
    mail .readModel (ofPayloads .readModel (Message.createdDags tenant) dags) =
      (Notice.ofDags tenant dags).map Notice.message := by
  cases dags <;> rfl

end Posting

namespace Notice

variable {tenant : TenantId} {ps : List MonitoringPayload} {ts : List Task} {ds : List Dag} {n : Notice}

theorem mem_ofEvents (h : n ∈ ofEvents tenant ps) : n = events tenant ps := by
  unfold ofEvents at h
  split at h
  · cases h
  · exact List.mem_singleton.mp h

theorem mem_ofDags (h : n ∈ ofDags tenant ds) : n = dags tenant ds := by
  unfold ofDags at h
  split at h
  · cases h
  · exact List.mem_singleton.mp h

theorem mem_ofTasks (h : n ∈ ofTasks tenant ts) : n = tasks tenant ts := by
  unfold ofTasks at h
  split at h
  · cases h
  · exact List.mem_singleton.mp h

theorem ofEvents_reports :
    (ofEvents tenant ps).flatMap reports = ps.filterMap (·.report? tenant) := by
  cases ps <;> simp [ofEvents, reports]

theorem ofTasks_reports : (ofTasks tenant ts).flatMap reports = [] := by
  cases ts <;> simp [ofTasks, reports]

theorem ofDags_reports : (ofDags tenant ds).flatMap reports = [] := by
  cases ds <;> simp [ofDags, reports]

/-- Notices that create nothing may stand in any order. -/
theorem ordered_of_quiet {ns : List Notice} (quiet : ∀ n ∈ ns, n.created = []) :
    ns.Pairwise fun a b => ∀ i ∈ b.created, ¬ a.Names i := by
  refine List.Pairwise.imp_mem.mpr (List.pairwise_of_forall fun a b => ?_)
  intro _ hb i hi
  rw [quiet b hb] at hi
  cases hi

end Notice

/-! ### Events of attempts -/

theorem MonitoringPayload.report?_named {p : MonitoringPayload} {type : EventType} (tenant : TenantId)
    (named : p.eventType = type.name) :
    p.report? tenant = some ⟨tenant, p.taskId, p.retryCount, type⟩ := by
  rw [report?, named, EventType.ofName?_name]
  rfl

/-- What the store did is announced by the notices: they report all of it, and new tasks first. -/
structure Announced (s s' : Store) (ns : List Notice) : Prop where
  sound : s'.Sound
  told : Told s s' (ns.flatMap Notice.reports)
  timely : ∀ n ∈ ns, n.Timely
  fresh : ∀ n ∈ ns, ∀ i ∈ n.created, s.lastTaskId < i ∧ i ≤ s'.lastTaskId
  order : ns.Pairwise fun a b => ∀ i ∈ b.created, ¬ a.Names i

namespace Announced

variable {s s' : Store} {tenant : TenantId} {ps : List MonitoringPayload} {rs : List Report}

theorem silent (sound : s'.Sound) (told : Told s s' []) : Announced s s' [] :=
  ⟨sound, told, fun _ h => absurd h List.not_mem_nil, fun _ h => absurd h List.not_mem_nil, .nil⟩

theorem ofEvents (sound : s'.Sound) (told : Told s s' (ps.filterMap (·.report? tenant)))
    (timely : ∀ p ∈ ps, Instant.inRange p.timestamp.nanos = true) :
    Announced s s' (Notice.ofEvents tenant ps) := by
  refine ⟨sound, Notice.ofEvents_reports ▸ told, ?_, ?_, ?_⟩
  · intro n hn
    rw [Notice.mem_ofEvents hn]
    exact timely
  · intro n hn i hi
    rw [Notice.mem_ofEvents hn] at hi
    cases hi
  · unfold Notice.ofEvents
    split
    · exact .nil
    · exact List.pairwise_singleton _ _

end Announced

end WorkflowEngine
