import WorkflowEngine.Proofs.Bus.Readable
import WorkflowEngine.Proofs.System.Intake

/-!
A batch of monitoring payloads. Those that cannot be read, that name no type of event or no task of the
tenant make no difference to what is written; and an unknown type is reported, once for each payload.
-/

namespace WorkflowEngine

variable {s : Store} {tenant : TenantId} {p : MonitoringPayload} {now : Instant}

/-- What is known of a task is found among the others, as far as it was asked for. -/
theorem Store.find?_taskMetas (s : Store) (tenant : TenantId) (ids : List TaskId) (id : TaskId) :
    (s.taskMetas tenant ids).find? (·.id == id) =
      if id ∈ ids then (s.tenantTask? tenant id).map TaskMeta.ofTask else none := by
  induction ids with
  | nil => rfl
  | cons i rest ih =>
    cases found : s.tenantTask? tenant i with
    | none =>
      have skip : s.taskMetas tenant (i :: rest) = s.taskMetas tenant rest := by
        simp [taskMetas, found]
      rw [skip, ih]
      by_cases same : id = i
      · subst same
        simp [found]
      · simp [same]
    | some t =>
      have named : t.id = i := (mem_of_task? (Option.filter_eq_some_iff.mp found).1).2
      have first : s.taskMetas tenant (i :: rest) = .ofTask t :: s.taskMetas tenant rest := by
        simp [taskMetas, found]
      rw [first, List.find?_cons]
      by_cases same : id = i
      · subst same
        simp [TaskMeta.ofTask, named, found]
      · have other : ((TaskMeta.ofTask t).id == id) = false := by
          simpa [TaskMeta.ofTask, named] using Ne.symm same
        simp [other, ih, same]

/-- A monitoring event is read as it was written, as long as its numbers and its instant fit. -/
theorem MonitoringPayload.ofBytes?_eq (fits : p.Fits) : Codec.ofBytes? (Codec.toBytes p) = some p := by
  have shallow : (Codec.encode p).depth ≤ 127 := PayloadType.monitoring.depth_encode (Nat.zero_le 126)
  exact Codec.ofBytes?_readsBack (readsBack fits) (Nat.lt_succ_of_le shallow)

namespace Engine

variable {e : Engine} {m : ReadModel} {metas : List TaskMeta} {ps : List MonitoringPayload}

/-- The event of a payload that names a task of the tenant. -/
def event? (s : Store) (tenant : TenantId) (p : MonitoringPayload) : Option TaskEvent :=
  (taskEvent (s.taskMetas tenant [p.taskId]) tenant p).toOption.join

theorem taskEvent_among {ids : List TaskId} (asked : p.taskId ∈ ids) :
    taskEvent (s.taskMetas tenant ids) tenant p = taskEvent (s.taskMetas tenant [p.taskId]) tenant p := by
  simp only [taskEvent, Store.find?_taskMetas, asked, List.mem_singleton]

theorem taskEvents_eq (metas : List TaskMeta) (tenant : TenantId) (ps : List MonitoringPayload) :
    taskEvents metas tenant ps = (ps.filterMap fun p => (taskEvent metas tenant p).toOption.join,
      ps.filterMap fun p => faultOf? (taskEvent metas tenant p)) := by
  induction ps with
  | nil => rfl
  | cons p rest ih =>
    simp only [taskEvents, ih]
    cases made : taskEvent metas tenant p with
    | error f => simp [made, faultOf?, Except.toOption]
    | ok event => cases event <;> simp [made, faultOf?, Except.toOption]

theorem noticed_eq (s : Store) (tenant : TenantId) (ps : List MonitoringPayload) :
    noticed s tenant ps = ps.filterMap (event? s tenant) := by
  rw [noticed, taskEvents_eq]
  refine List.filterMap_congr fun p hp => ?_
  rw [taskEvent_among (List.mem_map_of_mem hp), event?]

/-- The type of the payload is unknown. -/
def unknownType? (p : MonitoringPayload) : Option Fault :=
  if (EventType.ofName? p.eventType).isNone then some (.unknownEventType p.eventType) else none

theorem faultOf?_taskEvent : faultOf? (taskEvent metas tenant p) = unknownType? p := by
  unfold taskEvent unknownType? EventType.parse
  cases EventType.ofName? p.eventType <;> rfl

theorem event?_isSome : (event? s tenant p).isSome =
    ((EventType.ofName? p.eventType).isSome && (s.tenantTask? tenant p.taskId).isSome) := by
  unfold event? taskEvent EventType.parse
  rw [Store.find?_taskMetas, if_pos (List.mem_singleton_self _)]
  cases EventType.ofName? p.eventType <;> cases s.tenantTask? tenant p.taskId <;> rfl

/-- A payload can be read and tells of a known kind of event of a task of the tenant. -/
def isProper (e : Engine) (tenant : TenantId) (bytes : ByteArray) : Bool :=
  (Codec.ofBytes? bytes : Option MonitoringPayload).any fun p =>
    (EventType.ofName? p.eventType).isSome &&
      match e.store with
      | .sound s => (s.tenantTask? tenant p.taskId).isSome
      | .poisoned => false

theorem decode_proper (e : Engine) (tenant : TenantId) (payloads : List ByteArray)
    (store : e.store = .sound s) :
    decodePayloads MonitoringPayload (payloads.filter (e.isProper tenant)) =
      (decodePayloads MonitoringPayload payloads).filter fun p => (event? s tenant p).isSome := by
  rw [decodePayloads, decodePayloads, List.filterMap_filter, List.filter_filterMap]
  refine List.filterMap_congr fun bytes _ => ?_
  cases read : (Codec.ofBytes? bytes : Option MonitoringPayload) with
  | none => simp
  | some p => simp [isProper, read, store, event?_isSome, Option.filter]

theorem readMetas (store : e.store = .sound s) (ids : List TaskId) :
    e.read (·.taskMetas tenant ids) = .ok (s.taskMetas tenant ids) := by
  rw [Engine.read, store]
  rfl

/-- What is written comes of those payloads alone that name a task and a known type. -/
theorem ingestMonitoring_written (store : e.store = .sound s) (now : Instant) (ps : List MonitoringPayload) :
    let written := (e.writeEvents now tenant (ps.filterMap (event? s tenant))).2
    (e.ingestMonitoring now tenant ps).2.readModel = written.readModel ∧
      (e.ingestMonitoring now tenant ps).2.cache = written.cache := by
  unfold ingestMonitoring
  split
  · rename_i empty
    rw [List.isEmpty_iff.mp empty]
    exact ⟨rfl, rfl⟩
  · have events : (taskEvents (s.taskMetas tenant (ps.map (·.taskId))) tenant ps).1 =
        ps.filterMap (event? s tenant) := noticed_eq s tenant ps
    rw [readMetas store, ← events]
    dsimp only
    split
    · rename_i result
      rw [result]
      exact ⟨rfl, rfl⟩
    · rename_i result
      rw [result]
      exact ⟨rfl, rfl⟩

theorem writeEvents_ok (readable : e.readModel = .sound m)
    (works : ReadModelOp.insertEvents.name ∉ e.failing) (now : Instant) (tenant : TenantId)
    (events : List TaskEvent) : ∃ n, (e.writeEvents now tenant events).1 = .ok n := by
  unfold writeEvents
  dsimp only
  split
  · exact ⟨0, rfl⟩
  · simp [writeModel, count, works, readable, Guarded.write]

theorem ingestMonitoring_result (store : e.store = .sound s) (readable : e.readModel = .sound m)
    (works : ReadModelOp.insertEvents.name ∉ e.failing) (now : Instant) (ps : List MonitoringPayload) :
    (e.ingestMonitoring now tenant ps).1 = Fault.ofBatch (ps.filterMap unknownType?) := by
  unfold ingestMonitoring
  split
  · rename_i empty
    rw [List.isEmpty_iff.mp empty]
    rfl
  · rw [readMetas store]
    simp only [taskEvents_eq, faultOf?_taskEvent]
    obtain ⟨n, done⟩ := writeEvents_ok readable works now tenant
      (ps.filterMap fun p => (taskEvent (s.taskMetas tenant (ps.map (·.taskId))) tenant p).toOption.join)
    split
    · rfl
    · rename_i result
      rw [result] at done
      cases done

/-- Without the store nothing is written. -/
theorem ingestMonitoring_blind (poisoned : e.store = .poisoned) (now : Instant) (tenant : TenantId)
    (ps : List MonitoringPayload) : (e.ingestMonitoring now tenant ps).2 = e := by
  unfold ingestMonitoring
  rw [Engine.read, poisoned]
  split <;> rfl

theorem ofBatch_error {fs : List Fault} : (∃ f, Fault.ofBatch fs = .error f) ↔ fs ≠ [] := by
  match fs with
  | [] => simp [Fault.ofBatch]
  | [f] => simp [Fault.ofBatch]
  | f :: g :: rest => simp [Fault.ofBatch]

/-- A batch of monitoring events leaves the read model and the memory of what was written last just as if
those payloads were left out that cannot be read, that name an unknown type, or that name no task of the
tenant. As long as the store and the read model can be used, it fails just if a payload that can be read
names an unknown type, and tells of each of these in order. -/
theorem improper_events_apart (e : Engine) (now : Instant) (tenant : TenantId)
    (payloads : List ByteArray) :
    let read := decodePayloads MonitoringPayload payloads
    let all := e.ingest now tenant .createMonitoringEvent payloads
    let proper := e.ingest now tenant .createMonitoringEvent (payloads.filter (e.isProper tenant))
    all.2.readModel = proper.2.readModel ∧ all.2.cache = proper.2.cache ∧
      ∀ s m, e.store = .sound s → e.readModel = .sound m →
        ReadModelOp.insertEvents.name ∉ e.failing →
          all.1 = Fault.ofBatch (read.filterMap unknownType?) ∧
            ((∃ f, all.1 = .error f) ↔ ∃ p ∈ read, EventType.ofName? p.eventType = none) := by
  intro read all proper
  have same : all.2.readModel = proper.2.readModel ∧ all.2.cache = proper.2.cache := by
    simp only [all, proper, ingest]
    cases store : e.store with
    | poisoned => simp only [ingestMonitoring_blind store, and_self]
    | sound s =>
      obtain ⟨model, cache⟩ := ingestMonitoring_written store now read
      obtain ⟨model', cache'⟩ := ingestMonitoring_written store now
        (read.filter fun p => (event? s tenant p).isSome)
      have events : (read.filter fun p => (event? s tenant p).isSome).filterMap (event? s tenant) =
          read.filterMap (event? s tenant) := by
        rw [List.filterMap_filter]
        refine List.filterMap_congr fun p _ => ?_
        cases event? s tenant p <;> rfl
      rw [decode_proper e tenant payloads store, model', cache', events]
      exact ⟨model, cache⟩
  refine ⟨same.1, same.2, fun s m store readable works => ?_⟩
  have result : all.1 = Fault.ofBatch (read.filterMap unknownType?) :=
    ingestMonitoring_result store readable works now read
  refine ⟨result, ?_⟩
  rw [result, ofBatch_error]
  simp [unknownType?]

def eventOf (id : TaskId) (type : String) : MonitoringPayload :=
  { taskId := id, retryCount := 0, eventType := type, timestamp := .epoch }

theorem eventOf_fits {id : TaskId} (fits : FitsInt64 id) (type : String) : (eventOf id type).Fits where
  taskId := fits
  retryCount := show FitsInt32 0 from ⟨by decide, by decide⟩
  workerId := nofun
  timestamp := show Instant.inRange 0 = true by decide

/-- One task is known. -/
def oneTask : Engine where
  store := .sound { tasks := [{ (default : Task) with id := 1 }] }

/-- One payload cannot be read, one event is of an unknown type, one of a task that nobody has, and one is
as it should be. -/
def mixedEvents : List ByteArray :=
  [.empty, Codec.toBytes (eventOf 1 "PAUSED"), Codec.toBytes (eventOf 2 "STARTED"),
    Codec.toBytes (eventOf 1 "STARTED")]

theorem mixedEvents_apart :
    (oneTask.ingest .epoch default .createMonitoringEvent mixedEvents).2.readModel =
        (oneTask.ingest .epoch default .createMonitoringEvent (mixedEvents.drop 3)).2.readModel ∧
      (oneTask.ingest .epoch default .createMonitoringEvent mixedEvents).1 =
        .error (.unknownEventType "PAUSED") := by
  have none : (Codec.ofBytes? .empty : Option MonitoringPayload) = none := by rfl
  have one (type : String) : Codec.ofBytes? (Codec.toBytes (eventOf 1 type)) = some (eventOf 1 type) :=
    MonitoringPayload.ofBytes?_eq (eventOf_fits ⟨by decide, by decide⟩ type)
  have two (type : String) : Codec.ofBytes? (Codec.toBytes (eventOf 2 type)) = some (eventOf 2 type) :=
    MonitoringPayload.ofBytes?_eq (eventOf_fits ⟨by decide, by decide⟩ type)
  have read : decodePayloads MonitoringPayload mixedEvents =
      [eventOf 1 "PAUSED", eventOf 2 "STARTED", eventOf 1 "STARTED"] := by
    simp [decodePayloads, mixedEvents, none, one, two]
  have kept : mixedEvents.filter (oneTask.isProper default) = mixedEvents.drop 3 := by
    have empty : oneTask.isProper default .empty = false := by
      rw [isProper, none]
      rfl
    have paused : oneTask.isProper default (Codec.toBytes (eventOf 1 "PAUSED")) = false := by
      rw [isProper, one]
      rfl
    have stranger : oneTask.isProper default (Codec.toBytes (eventOf 2 "STARTED")) = false := by
      rw [isProper, two]
      rfl
    have proper : oneTask.isProper default (Codec.toBytes (eventOf 1 "STARTED")) = true := by
      rw [isProper, one]
      rfl
    simp [mixedEvents, empty, paused, stranger, proper]
  obtain ⟨model, -, told⟩ := improper_events_apart oneTask .epoch default mixedEvents
  obtain ⟨result, -⟩ := told _ _ rfl rfl List.not_mem_nil
  rw [kept] at model
  rw [read] at result
  exact ⟨model, result⟩

end Engine

end WorkflowEngine
