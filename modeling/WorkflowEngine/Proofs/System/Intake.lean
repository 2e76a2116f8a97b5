import WorkflowEngine.Proofs.ReadModel.Operation
import WorkflowEngine.Proofs.System.Mirror
import WorkflowEngine.Proofs.System.Telling

/-!
The messages for the read model, as they are taken in. Whatever comes of one, the read model mirrors
the notices as before, and a message that was handled is done with.
-/

namespace WorkflowEngine

open ReadModel

/-! ### Events of a notice -/

variable {s : Store} {metas : List TaskMeta} {tenant : TenantId} {p : MonitoringPayload} {e : TaskEvent}
  {r : Report} {now : Instant}

theorem MonitoringPayload.report?_same {q : MonitoringPayload}
    (decoded : Codec.ofBytes? (Codec.toBytes p) = some q) : q.report? tenant = p.report? tenant := by
  obtain ⟨task, attempt, type⟩ := ofBytes?_same decoded
  rw [report?, report?, task, attempt, type]

theorem Notice.mem_decoded {ps : List MonitoringPayload} {q : MonitoringPayload}
    (h : q ∈ decodePayloads MonitoringPayload (Message.monitoring tenant ps).payloads) :
    ∃ p ∈ ps, Codec.ofBytes? (Codec.toBytes p) = some q := by
  obtain ⟨bytes, listed, decoded⟩ := List.mem_filterMap.mp h
  obtain ⟨p, hp, rfl⟩ := List.mem_map.mp listed
  exact ⟨p, hp, decoded⟩

/-- A report whose numbers fit reaches the other end of the bus. -/
theorem Notice.decoded_of {ps : List MonitoringPayload} (hp : p ∈ ps)
    (reported : p.report? tenant = some r) (writable : r.Writable)
    (moment : Instant.inRange p.timestamp.nanos = true) :
    ∃ q ∈ decodePayloads MonitoringPayload (Message.monitoring tenant ps).payloads,
      q.report? tenant = some r := by
  obtain ⟨type, _, rfl⟩ := Option.map_eq_some_iff.mp reported
  obtain ⟨q, decoded⟩ := MonitoringPayload.ofBytes?_isSome writable.task writable.attempt moment
  refine ⟨q, List.mem_filterMap.mpr ⟨_, List.mem_map.mpr ⟨p, hp, rfl⟩, decoded⟩, ?_⟩
  rw [MonitoringPayload.report?_same decoded, reported]

theorem Store.mem_taskMetas {ids : List TaskId} {about : TaskMeta} (h : about ∈ s.taskMetas tenant ids) :
    ∃ t ∈ s.tasks, t.id = about.id ∧ t.insertedAt = about.insertedAt := by
  obtain ⟨t, ht, rfl⟩ := List.mem_map.mp h
  obtain ⟨i, _, found⟩ := List.mem_filterMap.mp ht
  exact ⟨t, (mem_of_task? (Option.filter_eq_some_iff.mp found).1).1, rfl, rfl⟩

theorem Store.taskMetas_of {ids : List TaskId} {t : Task} (ordered : s.Ordered) (ht : t ∈ s.tasks)
    (owned : t.tenantId = tenant) (asked : t.id ∈ ids) :
    ∃ about ∈ s.taskMetas tenant ids, about.id = t.id := by
  refine ⟨.ofTask t, List.mem_map.mpr ⟨t, List.mem_filterMap.mpr ⟨t.id, asked, ?_⟩, rfl⟩, rfl⟩
  exact Option.filter_eq_some_iff.mpr ⟨ordered.task?_eq ht, beq_iff_eq.mpr owned⟩

namespace Engine

theorem mem_taskEvents {payloads : List MonitoringPayload} :
    e ∈ (taskEvents metas tenant payloads).1 ↔ ∃ p ∈ payloads, taskEvent metas tenant p = .ok (some e) := by
  induction payloads with
  | nil => simp [taskEvents]
  | cons p rest ih =>
    simp only [taskEvents, List.mem_cons, exists_eq_or_imp]
    split
    · rename_i first
      rw [List.mem_cons, ih, first, Except.ok.injEq, Option.some.injEq, eq_comm]
    · rename_i none
      rw [ih, none]
      simp
    · rename_i unknown
      rw [ih, unknown]
      simp

theorem taskEvent_ok (h : taskEvent metas tenant p = .ok (some e)) :
    p.report? tenant = some e.report ∧ e.tenantId = tenant ∧ e.status = e.eventType.status ∧
      ∃ about ∈ metas, about.id = e.taskId ∧ about.insertedAt = e.taskInsertedAt := by
  obtain ⟨type, parsed, h⟩ := Fallible.bind_ok h
  obtain ⟨about, found, rfl⟩ := Option.map_eq_some_iff.mp (Except.ok.inj h)
  refine ⟨?_, rfl, rfl, about, List.mem_of_find?_eq_some found, ?_, rfl⟩
  · rw [MonitoringPayload.report?, EventType.parse_ok parsed]
    rfl
  · have named := List.find?_some found
    exact beq_iff_eq.mp named

theorem taskEvent_of (reported : p.report? tenant = some r) {about : TaskMeta} (listed : about ∈ metas)
    (named : about.id = r.taskId) :
    ∃ e, taskEvent metas tenant p = .ok (some e) ∧ e.taskId = r.taskId ∧ e.mark = r.mark := by
  obtain ⟨type, known, rfl⟩ := Option.map_eq_some_iff.mp reported
  have parsed : EventType.parse p.eventType = .ok type := by rw [EventType.parse, known]
  obtain ⟨first, found⟩ : ∃ first, metas.find? (·.id == p.taskId) = some first :=
    Option.isSome_iff_exists.mp (List.find?_isSome.mpr ⟨about, listed, beq_iff_eq.mpr named⟩)
  refine ⟨_, by rw [taskEvent, parsed]; exact congrArg _ (congrArg _ found), rfl, rfl⟩

/-- The events that the payloads of a notice become, where the tasks are those of the store. -/
def noticed (s : Store) (tenant : TenantId) (read : List MonitoringPayload) : List TaskEvent :=
  (taskEvents (s.taskMetas tenant (read.map (·.taskId))) tenant read).1

variable {ns : List Notice} {ps : List MonitoringPayload}

theorem noticed_told (h : e ∈ noticed s tenant (decodePayloads _ (Message.monitoring tenant ps).payloads)) :
    (e.tenantId = tenant ∧ e.status = e.eventType.status ∧
      e.report ∈ (Notice.events tenant ps).reports) ∧
      ∃ t ∈ s.tasks, t.id = e.taskId ∧ t.insertedAt = e.taskInsertedAt := by
  obtain ⟨q, hq, made⟩ := mem_taskEvents.mp h
  obtain ⟨reported, owner, implied, about, known, id, moment⟩ := taskEvent_ok made
  obtain ⟨p, hp, decoded⟩ := Notice.mem_decoded hq
  obtain ⟨t, ht, id', moment'⟩ := Store.mem_taskMetas known
  rw [MonitoringPayload.report?_same decoded] at reported
  exact ⟨⟨owner, implied, List.mem_filterMap.mpr ⟨p, hp, reported⟩⟩, t, ht, id'.trans id,
    moment'.trans moment⟩

/-- Every report that can be written down becomes an event, since the store knows its task. -/
theorem noticed_heard (ledger : Ledger s ns) (listed : Notice.events tenant ps ∈ ns)
    (hr : r ∈ (Notice.events tenant ps).reports) (writable : r.Writable) :
    ∃ e ∈ noticed s tenant (decodePayloads _ (Message.monitoring tenant ps).payloads),
      e.taskId = r.taskId ∧ e.mark = r.mark := by
  obtain ⟨t, ht, fits⟩ := ledger.told _ listed r hr
  obtain ⟨p, hp, reported⟩ := List.mem_filterMap.mp hr
  obtain ⟨q, hq, same⟩ := Notice.decoded_of hp reported writable (ledger.timely _ listed p hp)
  obtain ⟨task, owner⟩ : q.taskId = r.taskId ∧ tenant = r.tenantId := by
    obtain ⟨type, _, rfl⟩ := Option.map_eq_some_iff.mp same
    exact ⟨rfl, rfl⟩
  obtain ⟨about, known, id⟩ := Store.taskMetas_of ledger.sound.ordered ht
    (fits.tenant.trans owner.symm) (List.mem_map.mpr ⟨q, hq, task.trans fits.task.symm⟩)
  obtain ⟨e, made, task, mark⟩ := taskEvent_of same known (id.trans fits.task)
  exact ⟨e, mem_taskEvents.mpr ⟨q, hq, made⟩, task, mark⟩

/-! ### Writes to the read model -/

variable {x x' : Engine}

/-- Only the read model has changed, its memory and the records of what was done. -/
structure Aside (x x' : Engine) : Prop where
  settings : x'.settings = x.settings
  store : x'.store = x.store
  bus : x'.bus = x.bus

theorem Aside.refl (x : Engine) : Aside x x := ⟨rfl, rfl, rfl⟩

/-- A write goes well, or else the read model is as it was or cannot be used any more. -/
theorem writeModel_cases {α : Type} (x : Engine) (op : ReadModelOp)
    (f : ReadModel → Except Fault (α × ReadModel)) :
    (∃ a m m', x.readModel = .sound m ∧ f m = .ok (a, m') ∧
      x.writeModel op f = (.ok a, { x with readModel := .sound m' })) ∨
    ∃ fault g, x.writeModel op f = (.error fault, { x with readModel := g }) ∧
      ∀ m', g = .sound m' → x.readModel = .sound m' := by
  unfold writeModel
  split
  · exact Or.inr ⟨_, x.readModel, rfl, fun _ => id⟩
  · cases model : x.readModel with
    | poisoned => exact Or.inr ⟨_, .poisoned, rfl, fun _ => id⟩
    | sound m =>
      cases result : f m with
      | ok done =>
        obtain ⟨a, m'⟩ := done
        refine Or.inl ⟨a, m, m', rfl, result, ?_⟩
        simp only [Guarded.write, result]
      | error fault =>
        refine Or.inr ⟨fault, (Guarded.sound m).afterFault fault, ?_, fun _ => Guarded.afterFault_sound⟩
        simp only [Guarded.write, result]

theorem writeModel_aside {α : Type} (x : Engine) (op : ReadModelOp)
    (f : ReadModel → Except Fault (α × ReadModel)) : Aside x (x.writeModel op f).2 := by
  rcases writeModel_cases x op f with ⟨_, _, _, _, _, result⟩ | ⟨_, _, result, _⟩
  · rw [result]
    exact ⟨rfl, rfl, rfl⟩
  · rw [result]
    exact ⟨rfl, rfl, rfl⟩

theorem foldShare_aside (x : Engine) (now : Instant) (tenant : TenantId) (table : Table) (share : Nat) :
    Aside x (x.foldShare now tenant table share).2 := by
  unfold foldShare
  cases table <;> exact writeModel_aside ..

/-- What was written of some events: each of them, or one with its key, unless the write has failed. -/
theorem writeEvents_fresh (x : Engine) (now : Instant) (tenant : TenantId) (events : List TaskEvent) :
    Aside x (x.writeEvents now tenant events).2 ∧ ∃ fresh : List TaskEvent,
      (∀ e ∈ fresh, e ∈ events) ∧
      (∀ key ∈ (x.writeEvents now tenant events).2.cache.keys,
        key ∈ x.cache.keys ∨ ∃ e ∈ fresh, e.dedupKey = key) ∧
      (∀ m', (x.writeEvents now tenant events).2.readModel = .sound m' →
        ∃ m, x.readModel = .sound m ∧ m' = m.insertEvents now tenant fresh) ∧
      ∀ n, (x.writeEvents now tenant events).1 = .ok n → ∀ e ∈ events,
        e.dedupKey ∈ x.cache.keys ∨ ∃ e' ∈ fresh, e'.dedupKey = e.dedupKey := by
  have sifted : DedupCache.Sifted x.cache [] events (x.cache.unseen events) :=
    DedupCache.unseen_sifted x.cache [] events
  generalize split : x.cache.unseen events = parts at sifted
  obtain ⟨fresh, cache⟩ := parts
  have none : ∀ m : ReadModel, m.insertEvents now tenant [] = m := by
    intro m
    simp [insertEvents]
  have known : ∀ e ∈ events, e.dedupKey ∈ x.cache.keys ∨ ∃ e' ∈ fresh, e'.dedupKey = e.dedupKey := by
    intro e he
    rcases sifted.known e he with old | batch | new
    · exact Or.inl old
    · cases batch
    · exact Or.inr new
  simp only [writeEvents, split]
  split
  · rename_i empty
    rw [List.isEmpty_iff.mp empty] at known
    refine ⟨⟨rfl, rfl, rfl⟩, [], fun _ h => absurd h List.not_mem_nil, ?_, ?_, fun _ _ => known⟩
    · exact fun key hkey => Or.inl (sifted.keys key hkey)
    · exact fun m' h => ⟨m', h, (none m').symm⟩
  · rcases writeModel_cases ({ x with cache }.count .dedupHits (events.length - fresh.length))
      .insertEvents fun m => .ok ((), m.insertEvents now tenant fresh) with
      ⟨_, m, m', model, written, result⟩ | ⟨fault, g, result, unchanged⟩
    · rw [result]
      refine ⟨⟨rfl, rfl, rfl⟩, fresh, sifted.fresh, ?_, ?_, fun _ _ => known⟩
      · intro key hkey
        exact (DedupCache.mem_remember hkey).imp_left (sifted.keys key)
      · intro m'' h
        cases h
        cases written
        exact ⟨m, model, rfl⟩
    · rw [result]
      refine ⟨⟨rfl, rfl, rfl⟩, [], fun _ h => absurd h List.not_mem_nil, ?_, ?_, nofun⟩
      · exact fun key hkey => Or.inl (sifted.keys key hkey)
      · exact fun m' h => ⟨m', unchanged m' h, (none m').symm⟩

theorem ingestMonitoring_aside (x : Engine) (now : Instant) (tenant : TenantId)
    (payloads : List MonitoringPayload) : Aside x (x.ingestMonitoring now tenant payloads).2 := by
  unfold ingestMonitoring
  split
  · exact .refl x
  · split
    · exact .refl x
    · rename_i metas _
      have written := (writeEvents_fresh x now tenant (taskEvents metas tenant payloads).1).1
      simp only
      split <;> rename_i result <;> rwa [result] at written

/-- Whatever comes of a message for the read model, the store and the bus are as they were. -/
theorem handleReadModel_aside (x : Engine) (now : Instant) (tenant : TenantId) (kindName : String)
    (payloads : List ByteArray) : Aside x (x.handleReadModel now tenant kindName payloads).2 := by
  have ingested : ∀ kind, Aside x (x.ingest now tenant kind payloads).2 := by
    intro kind
    cases kind with
    | createdTask =>
      simp only [ingest, ingestTasks]
      split
      · exact .refl x
      · exact writeModel_aside ..
    | createdDag =>
      simp only [ingest, ingestDags]
      split
      · exact .refl x
      · exact writeModel_aside ..
    | createMonitoringEvent => exact ingestMonitoring_aside ..
    | taskCompleted | taskFailed | taskCancelled | userEvent | internalEvent | taskTrigger
    | notifyTaskCreated | notifyTaskReleased => exact .refl x
  unfold handleReadModel
  split
  · exact .refl x
  · rename_i kind _
    obtain ⟨settings, store, bus⟩ := ingested kind
    exact ⟨settings, store, bus⟩

/-! ### Messages -/

/-- How many messages are done with when one more has come. -/
def reached (delivered k : Nat) : Except Fault Unit → Nat
  | .ok _ => max delivered (k + 1)
  | .error _ => delivered

/-- The read model mirrors the notices, and but for new rows it shows what it has shown. -/
structure Receives (s : Store) (ns : List Notice) (delivered : Nat) (x x' : Engine) : Prop where
  aside : Aside x x'
  mirrors : ∀ m', x'.readModel = .sound m' → ∃ m, x.readModel = .sound m ∧
    Mirror s m' x'.cache.keys ns delivered ∧ m.Grows m' ∧
      ∀ i row, m'.task? i = some row → row.mark = unmarked ∨ m.task? i = some row

section

variable {d k : Nat} {ts : List Task} {ds : List Dag} (ledger : Ledger s ns) (le : k ≤ d)
  (mirror : ∀ m, x.readModel = .sound m → Mirror s m x.cache.keys ns d)

theorem receives_nothing (aside : Aside x x') (cache : ∀ key ∈ x'.cache.keys, key ∈ x.cache.keys)
    (model : ∀ m, x'.readModel = .sound m → x.readModel = .sound m)
    (mirror : ∀ m, x.readModel = .sound m → Mirror s m x.cache.keys ns d) :
    Receives s ns d x x' := by
  refine ⟨aside, fun m h => ⟨m, model m h, ?_, .refl m, fun _ _ => Or.inr⟩⟩
  have before := mirror m (model m h)
  exact { before with remembered := fun key hkey => before.remembered key (cache key hkey) }

include le mirror in
theorem ingestDags_receives (here : ns[k]? = some (.dags tenant ds)) (read : List Dag) :
    Receives s ns (reached d k (x.ingestDags tenant read).1) x (x.ingestDags tenant read).2 := by
  have advance : ∀ {m : ReadModel}, Mirror s m x.cache.keys ns d →
      Mirror s m x.cache.keys ns (max d (k + 1)) := fun mirror =>
    mirror.advance here le (fun _ h => absurd h List.not_mem_nil) fun _ h => absurd h List.not_mem_nil
  unfold ingestDags
  split
  · exact ⟨.refl x, fun m h => ⟨m, h, advance (mirror m h), .refl m, fun _ _ => Or.inr⟩⟩
  · rcases writeModel_cases x .createDags fun m => do return ((), ← m.createDags tenant read) with
      ⟨_, m, m', model, written, result⟩ | ⟨fault, g, result, unchanged⟩
    · rw [result]
      obtain ⟨_, created, written⟩ := Fallible.bind_ok written
      cases written
      obtain ⟨tasks, log, pending⟩ := createDags_same created
      obtain ⟨coherent, grows⟩ := (mirror m model).coherent.same tasks log pending
      refine ⟨⟨rfl, rfl, rfl⟩, fun m'' h => ?_⟩
      cases h
      refine ⟨m, model, advance ((mirror m model).folded coherent grows log), grows, fun i row h => ?_⟩
      rw [task?, tasks] at h
      exact Or.inr h
    · rw [result]
      exact receives_nothing ⟨rfl, rfl, rfl⟩ (fun _ => id) unchanged mirror

include ledger le mirror in
theorem ingestTasks_receives (here : ns[k]? = some (.tasks tenant ts)) {read : List Task}
    (same : read.filter (·.tenantId == tenant) = (Notice.tasks tenant ts).read) :
    Receives s ns (reached d k (x.ingestTasks tenant read).1) x (x.ingestTasks tenant read).2 := by
  unfold ingestTasks
  split
  · rename_i empty
    rw [List.isEmpty_iff.mp empty] at same
    refine ⟨.refl x, fun m h => ⟨m, h, ?_, .refl m, fun _ _ => Or.inr⟩⟩
    refine (mirror m h).advance here le (fun _ h => absurd h List.not_mem_nil) fun t ht => ?_
    rw [← same] at ht
    cases ht
  · rcases writeModel_cases x .createTasks fun m => do return ((), ← m.createTasks tenant read) with
      ⟨_, m, m', model, written, result⟩ | ⟨fault, g, result, unchanged⟩
    · rw [result]
      obtain ⟨_, created, written⟩ := Fallible.bind_ok written
      cases written
      obtain ⟨added, grows, rows, origin⟩ := (mirror m model).addTasks ledger here le
        (show ∀ t ∈ (Notice.tasks tenant ts).read, t ∈ (Notice.tasks tenant ts).read from fun _ => id)
      rw [← same, ← createTasks_rows created] at added grows rows origin
      refine ⟨⟨rfl, rfl, rfl⟩, fun m'' h => ?_⟩
      cases h
      refine ⟨m, model, ?_, grows, origin⟩
      exact added.advance here le (fun _ h => absurd h List.not_mem_nil) (same ▸ rows)
    · rw [result]
      exact receives_nothing ⟨rfl, rfl, rfl⟩ (fun _ => id) unchanged mirror

include ledger le mirror in
theorem writeEvents_receives (here : ns[k]? = some (.events tenant ps)) (now : Instant) :
    let events := noticed s tenant (decodePayloads _ (Message.monitoring tenant ps).payloads)
    Receives s ns d x (x.writeEvents now tenant events).2 ∧
      ∀ n, (x.writeEvents now tenant events).1 = .ok n →
        Receives s ns (max d (k + 1)) x (x.writeEvents now tenant events).2 := by
  intro events
  have listed : Notice.events tenant ps ∈ ns := List.mem_of_getElem? here
  obtain ⟨aside, fresh, sub, keys, model, known⟩ := writeEvents_fresh x now tenant events
  have inserted : ∀ m, x.readModel = .sound m →
      Mirror s (m.insertEvents now tenant fresh) (x.writeEvents now tenant events).2.cache.keys ns d ∧
        ∀ e ∈ m.events ++ fresh, e ∈ (m.insertEvents now tenant fresh).events := fun m before =>
    (mirror m before).insert ledger here le now (fun e he => (noticed_told (sub e he)).1)
      (fun e he => (noticed_told (sub e he)).2) keys
  refine ⟨⟨aside, fun m' h => ?_⟩, fun n done => ⟨aside, fun m' h => ?_⟩⟩
  · obtain ⟨m, before, rfl⟩ := model m' h
    exact ⟨m, before, (inserted m before).1, insertEvents_grows m now tenant fresh, fun _ _ => Or.inr⟩
  · obtain ⟨m, before, rfl⟩ := model m' h
    obtain ⟨mirrors, log⟩ := inserted m before
    refine ⟨m, before, ?_, insertEvents_grows m now tenant fresh, fun _ _ => Or.inr⟩
    refine mirrors.advance here le (fun r hr writable => ?_) fun _ h => absurd h List.not_mem_nil
    obtain ⟨e, he, task, mark⟩ := noticed_heard ledger listed hr writable
    -- The event itself was written, or one with its key, now or before.
    have twin : ∃ e' ∈ m.events ++ fresh, e'.dedupKey = e.dedupKey ∧ e'.status = e'.eventType.status := by
      rcases known n done e he with old | ⟨e', new, same⟩
      · obtain ⟨e', logged, same⟩ := (mirror m before).remembered _ old
        exact ⟨e', List.mem_append_left _ logged, same, (mirror m before).implied e' logged⟩
      · exact ⟨e', List.mem_append_right _ new, same, (noticed_told (sub e' new)).1.2.1⟩
    obtain ⟨e', logged, same, implied⟩ := twin
    obtain ⟨task', type, attempt⟩ := TaskEvent.dedupKey_same same
    refine ⟨e', log e' logged, task'.trans task, ?_⟩
    rw [← mark, TaskEvent.mark, TaskEvent.mark, attempt, implied, type, (noticed_told he).1.2.1]

include ledger le mirror in
theorem ingestMonitoring_receives (store : x.store = .sound s)
    (here : ns[k]? = some (.events tenant ps)) (now : Instant) :
    let read := decodePayloads MonitoringPayload (Message.monitoring tenant ps).payloads
    Receives s ns (reached d k (x.ingestMonitoring now tenant read).1) x
      (x.ingestMonitoring now tenant read).2 := by
  intro read
  have listed : Notice.events tenant ps ∈ ns := List.mem_of_getElem? here
  have known : x.read (·.taskMetas tenant (read.map (·.taskId))) =
      .ok (s.taskMetas tenant (read.map (·.taskId))) := by
    rw [Engine.read, store]
    rfl
  unfold ingestMonitoring
  split
  · rename_i empty
    refine ⟨.refl x, fun m h => ⟨m, h, ?_, .refl m, fun _ _ => Or.inr⟩⟩
    refine (mirror m h).advance here le (fun r hr writable => ?_) fun _ h => absurd h List.not_mem_nil
    obtain ⟨e, he, _⟩ := noticed_heard ledger listed hr writable
    rw [show decodePayloads _ _ = ([] : List MonitoringPayload) from List.isEmpty_iff.mp empty] at he
    cases he
  · rw [known]
    obtain ⟨kept, done⟩ := writeEvents_receives ledger le mirror here now
    simp only [noticed] at kept done
    dsimp only
    split
    · rename_i n x' result
      rw [result] at kept done
      cases Fault.ofBatch _ with
      | ok _ => exact done n rfl
      | error f => exact kept
    · rename_i f x' result
      rw [result] at kept
      exact kept

end

end Engine

end WorkflowEngine
