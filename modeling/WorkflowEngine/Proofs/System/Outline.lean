import WorkflowEngine.Proofs.System.Monitoring
import WorkflowEngine.Proofs.System.Run

/-!
A system in which nothing fails, step by step. What a step comes to is told by an outline: the store, the
messages for the read model, how far they were delivered, and the read model with its memory.
-/

namespace WorkflowEngine

namespace Engine

variable {e e' : Engine} {now : Instant} {tenant : TenantId} {m m' : ReadModel}

theorem postAll_failing (e : Engine) (ps : List Posting) : (e.postAll ps).2.failing = e.failing := by
  induction ps generalizing e with
  | nil => rfl
  | cons p rest ih => exact (ih _).trans (by cases p <;> rfl)

theorem perform_failing (e : Engine) (cause : String) (x : Effect) :
    (e.perform cause x).failing = e.failing :=
  postAll_failing _ x.postings

theorem handleReadModel_eq {kind : MessageKind} {payloads : List ByteArray}
    (taken : e.ingest now tenant kind payloads = (.ok (), e')) :
    e.handleReadModel now tenant kind.name payloads = (.ok (), e'.countHandled kind (.ok ())) := by
  simp only [handleReadModel, kind.parse_of_name, taken, recovered_ok]

section

variable (works : e.failing = []) (readable : e.readModel = .sound m)
include works readable

theorem writeModel_eq {α : Type} {op : ReadModelOp} {f : ReadModel → Except Fault (α × ReadModel)} {a : α}
    (done : f m = .ok (a, m')) : e.writeModel op f = (.ok a, { e with readModel := .sound m' }) := by
  simp [writeModel, works, readable, Guarded.write, done]

theorem ingestTasks_eq {ts : List Task} (done : m.createTasks tenant ts = .ok m') :
    e.ingestTasks tenant ts = (.ok (), { e with readModel := .sound m' }) := by
  unfold ingestTasks
  split
  · rename_i empty
    rw [List.isEmpty_iff.mp empty] at done
    have still : m = m' := Except.ok.inj done
    rw [← still, ← readable]
  · exact writeModel_eq works readable (by rw [done]; rfl)

variable {events fresh : List TaskEvent} {cache : DedupCache}

/-- Events that are new are written and remembered. -/
theorem writeEvents_eq (sifted : e.cache.unseen events = (fresh, cache)) :
    e.writeEvents now tenant events = (.ok fresh.length, { e with
      metrics := e.metrics.add .dedupHits (events.length - fresh.length), cache := cache.remember fresh
      readModel := .sound (m.insertEvents now tenant fresh) }) := by
  unfold writeEvents
  rw [sifted]
  cases fresh with
  | nil =>
    have still : m.insertEvents now tenant [] = m := by simp [ReadModel.insertEvents]
    rw [still, ← readable]
    rfl
  | cons first rest => simp [writeModel, count, works, readable, Guarded.write]

theorem ingestMonitoring_eq {s : Store} {ps : List MonitoringPayload} (now : Instant)
    (store : e.store = .sound s) (some : ps ≠ []) (known : ps.filterMap unknownType? = [])
    (sifted : e.cache.unseen (ps.filterMap (event? s tenant)) = (fresh, cache)) :
    ∃ metrics, e.ingestMonitoring now tenant ps = (.ok (), { e with
      metrics, cache := cache.remember fresh, readModel := .sound (m.insertEvents now tenant fresh) }) := by
  have told : taskEvents (s.taskMetas tenant (ps.map (·.taskId))) tenant ps =
      (ps.filterMap (event? s tenant), []) := by
    refine Prod.ext (noticed_eq s tenant ps) ?_
    simpa only [taskEvents_eq, faultOf?_taskEvent] using known
  unfold ingestMonitoring
  rw [if_neg (List.isEmpty_iff.not.mpr some), readMetas store]
  simp only [told, writeEvents_eq works readable sifted]
  exact ⟨_, rfl⟩

end

end Engine

/-- What decides about the next step of a system in which nothing fails. -/
structure Outline where
  settings : Settings
  store : Store
  ids : IdSource
  mail : List Message
  model : ReadModel
  cache : DedupCache
  delivered : Nat

namespace Outline

/-- Nothing fails in the system, and this is its outline. -/
structure Of (o : Outline) (h : System) : Prop where
  works : h.engine.failing = []
  free : h.engine.bus.blocked = []
  settings : h.engine.settings = o.settings
  store : h.engine.store = .sound o.store
  ids : h.engine.ids = o.ids
  mail : h.mail = o.mail
  model : h.engine.readModel = .sound o.model
  cache : h.engine.cache = o.cache
  delivered : h.delivered = o.delivered

/-- The outline behind what a request or a sweep comes to. -/
def perform (o : Outline) (x : Effect) : Outline :=
  { o with store := x.store, ids := x.ids, mail := o.mail ++ Posting.mail .readModel x.postings }

variable {o : Outline} {h : System} {now : Instant} {tenant : TenantId} {m : ReadModel}

/-! ### Requests and sweeps -/

theorem Of.performed (outline : o.Of h) (cause : String) (x : Effect) :
    (o.perform x).Of { h with engine := h.engine.perform cause x } := by
  have done := Engine.perform_performed h.engine cause x
  have posted := done.posted .readModel
  exact {
    works := (Engine.perform_failing ..).trans outline.works
    free := posted.blocked.trans outline.free
    settings := posted.settings.trans outline.settings
    store := done.store
    ids := done.ids
    mail := (posted.published outline.free).trans (congrArg (· ++ _) outline.mail)
    model := posted.readModel.trans outline.model
    cache := posted.cache.trans outline.cache
    delivered := outline.delivered }

theorem Of.served {kind : MessageKind} {payloads : List ByteArray} {r : Request} {x : Effect}
    (outline : o.Of h) (asked : Request.ofPayloads kind payloads = .ok r) (some : r.isEmpty = false)
    (served : Request.serve o.store (o.ids.skip r.draws) now tenant r = .ok x) :
    (o.perform x).Of (h.act (.handle now tenant kind.name payloads)) := by
  rw [← outline.ids] at served
  rw [System.act, Engine.handleTasks_eq asked some outline.store served]
  obtain ⟨works, free, settings, store, ids, mail, model, cache, delivered⟩ :=
    outline.performed kind.name x
  exact ⟨works, free, settings, store, ids, mail, model, cache, delivered⟩

theorem Of.swept {kind : Sweep} {x : SweepEffect} (outline : o.Of h)
    (swept : sweep kind o.store o.ids now tenant o.settings.sweepBatchLimit = .ok x) :
    (o.perform x.effect).Of (h.act (.sweep now kind tenant)) := by
  have got : (h.engine.store.get >>= fun s =>
      sweep kind s h.engine.ids now tenant h.engine.settings.sweepBatchLimit) = .ok x := by
    rw [outline.store, outline.ids, outline.settings]
    exact swept
  have done : h.engine.sweepOnce now kind tenant =
      (.ok x.more, h.engine.perform kind.name x.effect) := by
    simp only [Engine.sweepOnce, got]
  rw [System.act, done]
  exact outline.performed kind.name x.effect

/-! ### The read model -/

theorem Of.handled {message : Message} {e : Engine} (outline : o.Of h) (kind : MessageKind)
    (next : o.mail[o.delivered]? = some message) (named : message.kindName = kind.name)
    (taken : h.engine.ingest now message.tenantId kind message.payloads = (.ok (), e)) :
    h.act (.deliver now o.delivered) = ⟨e.countHandled kind (.ok ()), o.delivered + 1⟩ := by
  have handled := Engine.handleReadModel_eq taken
  rw [← named] at handled
  rw [← outline.mail] at next
  simp [System.act, System.deliver, outline.delivered, next, handled]

/-- The rows of tasks that can be written down are added. -/
theorem Of.tasks {ts : List Task} (outline : o.Of h) (now : Instant)
    (next : o.mail[o.delivered]? = some (Message.createdTasks tenant ts)) (fits : ∀ t ∈ ts, t.Fits)
    (plain : ∀ t ∈ ts, t.input.DoubleFree) (shallow : ∀ t ∈ ts, t.input.depth ≤ 126)
    (done : o.model.createTasks tenant ts = .ok m) :
    { o with model := m, delivered := o.delivered + 1 }.Of (h.act (.deliver now o.delivered)) := by
  have read : decodePayloads Task (ts.map Codec.toBytes) = ts := decodePayloads_toBytes fun t ht =>
    Codec.ofBytes?_readsBack (Task.readsBack (fits t ht) (plain t ht))
      (Nat.lt_succ_of_le (PayloadType.task.depth_encode (shallow t ht)))
  have written := Engine.ingestTasks_eq outline.works outline.model done
  rw [← read] at written
  rw [outline.handled .createdTask next rfl written]
  exact ⟨outline.works, outline.free, outline.settings, outline.store, outline.ids, outline.mail, rfl,
    outline.cache, rfl⟩

/-- The events of payloads that can be written down are added to the log, if they are new. -/
theorem Of.events {ps : List MonitoringPayload} {fresh : List TaskEvent} {cache : DedupCache}
    (outline : o.Of h) (now : Instant)
    (next : o.mail[o.delivered]? = some (Message.monitoring tenant ps)) (some : ps ≠ [])
    (fits : ∀ p ∈ ps, p.Fits) (known : ps.filterMap Engine.unknownType? = [])
    (sifted : o.cache.unseen (ps.filterMap (Engine.event? o.store tenant)) = (fresh, cache)) :
    { o with
      model := o.model.insertEvents now tenant fresh
      cache := cache.remember fresh
      delivered := o.delivered + 1 }.Of (h.act (.deliver now o.delivered)) := by
  have read : decodePayloads MonitoringPayload (ps.map Codec.toBytes) = ps :=
    decodePayloads_toBytes fun p hp => MonitoringPayload.ofBytes?_eq (fits p hp)
  obtain ⟨metrics, written⟩ := Engine.ingestMonitoring_eq outline.works outline.model now
    outline.store some known (outline.cache ▸ sifted)
  nth_rewrite 1 [← read] at written
  rw [outline.handled .createMonitoringEvent next rfl written]
  exact ⟨outline.works, outline.free, outline.settings, outline.store, outline.ids, outline.mail, rfl,
    rfl, rfl⟩

theorem Of.pass {share n : Nat} (outline : o.Of h)
    (done : o.model.foldTasks tenant share o.settings.reconcileBatchLimit now = .ok (n, m)) :
    { o with model := m }.Of (h.act (.pass now tenant .tasks share)) := by
  have folded : h.engine.foldShare now tenant .tasks share =
      (.ok n, { h.engine with readModel := .sound m }) :=
    Engine.writeModel_eq outline.works outline.model (outline.settings ▸ done)
  rw [System.act, folded]
  exact ⟨outline.works, outline.free, outline.settings, outline.store, outline.ids, outline.mail, rfl,
    outline.cache, outline.delivered⟩

/-- An event that is new is written down, and then it is folded. -/
theorem Of.heard {p : MonitoringPayload} {e : TaskEvent} {share n : Nat} (outline : o.Of h)
    (next : o.mail[o.delivered]? = some (Message.monitoring tenant [p])) (fits : p.Fits)
    (told : Engine.event? o.store tenant p = some e) (new : e.dedupKey ∉ o.cache.keys)
    (done : (o.model.insertEvents now tenant [e]).foldTasks tenant share o.settings.reconcileBatchLimit now =
      .ok (n, m)) :
    { o with model := m, cache := o.cache.remember [e], delivered := o.delivered + 1 }.Of
      ((h.act (.deliver now o.delivered)).act (.pass now tenant .tasks share)) := by
  have known : Engine.unknownType? p = none := by
    have named := @Engine.event?_isSome o.store tenant p
    rw [told, Option.isSome_some, eq_comm, Bool.and_eq_true] at named
    exact if_neg (by simpa [Option.isSome_iff_ne_none] using named.1)
  have sifted : o.cache.unseen ([p].filterMap (Engine.event? o.store tenant)) = ([e], o.cache) := by
    rw [List.filterMap_cons, told]
    exact DedupCache.unseen_new new
  have written := outline.events now next (List.cons_ne_nil p []) (List.forall_mem_singleton.mpr fits)
    (by rw [List.filterMap_cons, known]; rfl) sifted
  exact written.pass done

end Outline

end WorkflowEngine
