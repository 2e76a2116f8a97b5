import WorkflowEngine.Proofs.Store.Precedence
import WorkflowEngine.Proofs.System.Commands
import WorkflowEngine.Proofs.System.Publication

/-!
The order of steps in the engine at work. Every action comes down to at most one command to the store,
and a command that offers announcements to waiting steps is honest if these were published, since what
was published is what became of the tasks.
-/

namespace WorkflowEngine

open Fallible Store

variable {s s' : Store} {ids : IdSource} {now : Instant} {tenant : TenantId}

/-! ### Requests as commands -/

/-- The announcements that a request offers to waiting steps. -/
def Request.announcements : Request → List InternalEventPayload
  | internalEvents payloads => payloads
  | _ => []

/-- A command changes the store so, and it tells nothing but what the announcements do. -/
def Obeyed (announcements : List InternalEventPayload) (s s' : Store) : Prop :=
  ∃ c more, s.obey c = .ok (more, s') ∧ ∀ p o, s.Tells c p o →
    p ∈ s.agenda.parts ∧ ∃ e ∈ announcements, Outcome.ofKey? e.key = some (o, p.externalId)

theorem Obeyed.quiet {announcements : List InternalEventPayload} {c : Command} {more : List Attempt}
    (done : s.obey c = .ok (more, s')) (quiet : ∀ p o, ¬ s.Tells c p o) : Obeyed announcements s s' :=
  ⟨c, more, done, fun p o told => absurd told (quiet p o)⟩

theorem serve_obeyed {r : Request} {x : Effect} (h : Request.serve s ids now tenant r = .ok x) :
    Obeyed r.announcements s x.store := by
  obtain ⟨more, done⟩ := serve_done h
  cases r with
  | internalEvents payloads =>
    refine ⟨_, more, done, ?_⟩
    rintro p o ⟨part, _, e, listed, read⟩
    obtain ⟨payload, given, rfl⟩ := List.mem_map.mp listed
    exact ⟨part, payload, given, read⟩
  | complete | fail | cancel | userEvents | trigger => exact .quiet done fun _ _ => id

theorem sweep_obeyed {kind : Sweep} {limit : Nat} {x : SweepEffect}
    (h : sweep kind s ids now tenant limit = .ok x) : Obeyed [] s x.effect.store := by
  obtain ⟨more, done⟩ := sweep_done h
  exact .quiet done fun _ _ => id

/-! ### Actions as commands -/

namespace System

variable {h : System} {a : Action}

/-- The announcements that an action offers to waiting steps. -/
def Action.announcements : Action → List InternalEventPayload
  | .handle _ _ kindName payloads =>
    if kindName = MessageKind.internalEvent.name then decodePayloads InternalEventPayload payloads
    else []
  | _ => []

theorem ofPayloads_announcements {kind : MessageKind} {payloads : List ByteArray} {r : Request}
    (asked : Request.ofPayloads kind payloads = .ok r) :
    r.announcements = (Action.handle now tenant kind.name payloads).announcements := by
  cases kind with
  | taskTrigger | taskCompleted | taskFailed | taskCancelled | userEvent | internalEvent =>
    cases asked
    rfl
  | createdTask | createdDag | createMonitoringEvent | notifyTaskCreated | notifyTaskReleased =>
    cases asked

theorem act_obeyed (store : (h.act a).engine.store = .sound s') :
    ∃ s, h.engine.store = .sound s ∧ (s' = s ∨ Obeyed a.announcements s s') := by
  cases a with
  | command c silent =>
    obtain ⟨s, was, same | ⟨more, done⟩⟩ := Guarded.write_sound store
    · exact ⟨s, was, Or.inl same⟩
    · refine ⟨s, was, Or.inr (.quiet done fun p o told => ?_)⟩
      cases c <;> first | exact told | cases silent
  | handle now tenant kindName payloads =>
    rcases h.engine.handleTasks_cases now tenant kindName payloads with
      idle | ⟨kind, r, s, x, rfl, asked, was, served, done⟩
    · exact ⟨s', idle.store s' store, Or.inl rfl⟩
    · cases done.store.symm.trans store
      refine ⟨s, was, Or.inr ?_⟩
      rw [← ofPayloads_announcements asked]
      exact serve_obeyed served
  | sweep now kind tenant =>
    rcases h.engine.sweepOnce_cases now kind tenant with idle | ⟨s, x, was, swept, done⟩
    · exact ⟨s', idle.store s' store, Or.inl rfl⟩
    · cases done.store.symm.trans store
      exact ⟨s, was, Or.inr (sweep_obeyed swept)⟩
  | evaluate tenant strategy =>
    obtain ⟨same, _⟩ := h.engine.evaluate_posted QueueName.scheduler_tasks tenant strategy
    have ran : (h.engine.store.write fun s => .ok (s.runStrategy tenant strategy)).2 = .sound s' :=
      same.symm.trans store
    obtain ⟨s, was, same | ⟨summary, ran⟩⟩ := Guarded.write_sound ran
    · exact ⟨s, was, Or.inl same⟩
    · cases ran
      refine ⟨s, was, Or.inr (.quiet (c := .runStrategy tenant strategy) rfl fun _ _ => id)⟩
  | deliver now n =>
    refine ⟨s', ?_, Or.inl rfl⟩
    simp only [act, deliver] at store
    split at store
    · exact store
    · split at store
      · exact store
      · rename_i m _
        have aside := h.engine.handleReadModel_aside now m.tenantId m.kindName m.payloads
        split at store <;> rename_i result <;> rw [result] at aside <;> exact aside.store ▸ store
  | pass now tenant table share =>
    have aside := h.engine.foldShare_aside now tenant table share
    exact ⟨s', aside.store ▸ store, Or.inl rfl⟩

/-! ### Honesty -/

/-- Of announcements only those are handled that have been published. -/
def Heeds (h : System) : Action → Prop
  | .handle _ _ kindName payloads =>
    kindName = MessageKind.internalEvent.name → ∀ bytes ∈ payloads,
      ∃ m ∈ h.engine.bus.published .tasks,
        m.kindName = MessageKind.internalEvent.name ∧ bytes ∈ m.payloads
  | _ => True

/-- The actions of a run handle no announcements but those that were published before. -/
def HeedfulRun (h : System) : List Action → Prop
  | [] => True
  | a :: rest => h.Heeds a ∧ (h.act a).HeedfulRun rest

theorem Heeds.outcomes {e : InternalEventPayload} {o : Outcome} {id : ExternalId} (heeds : h.Heeds a)
    (told : e ∈ a.announcements) (read : Outcome.ofKey? e.key = some (o, id)) :
    (o, id) ∈ h.engine.outcomes := by
  cases a with
  | handle now tenant kindName payloads =>
    simp only [Action.announcements] at told
    split at told
    · rename_i announces
      obtain ⟨bytes, given, decoded⟩ := List.mem_filterMap.mp told
      obtain ⟨m, published, kind, carried⟩ := heeds announces bytes given
      refine List.mem_flatMap.mpr ⟨m, published, ?_⟩
      rw [Message.outcomes, if_pos kind]
      refine List.mem_filterMap.mpr ⟨bytes, carried, ?_⟩
      rw [InternalEventPayload.keyOf?_read decoded]
      exact read
    · cases told
  | command | sweep | evaluate | deliver | pass => cases told

theorem Heeds.ended {p : Part} {e : InternalEventPayload} {o : Outcome} {d : DagId}
    (heeds : h.Heeds a) (faithful : Faithful h.engine.outcomes s) (part : p ∈ s.agenda.parts)
    (told : e ∈ a.announcements) (read : Outcome.ofKey? e.key = some (o, p.externalId))
    (run : p.dagId = some d) : s.Ended d p.step o := by
  obtain ⟨t, ht, rfl⟩ := List.mem_map.mp part
  exact ⟨t, ht, run, rfl, faithful.ended ht (heeds.outcomes told read)⟩

/-! ### Runs -/

variable {settings : Settings} {days : TableDays} {actions done later : List Action} {r : DagRecord}
  {w : RegisteredWorkflow}

/-- One of the actions has triggered the run `r`, when `w` was registered under the name that it has. -/
def Triggered (h : System) (actions : List Action) (r : DagRecord) (w : RegisteredWorkflow) : Prop :=
  ∃ before a after s s', actions = before ++ a :: after ∧
    (h.run before).engine.store = .sound s ∧ ((h.run before).act a).engine.store = .sound s' ∧
    r ∉ s.dags ∧ r ∈ s'.dags ∧ s.workflow? r.dag.tenantId r.workflowName = some w

theorem Triggered.more (triggered : h.Triggered done r w) (a : Action) :
    h.Triggered (done ++ [a]) r w := by
  obtain ⟨before, b, after, s, s', rfl, rest⟩ := triggered
  exact ⟨before, b, after ++ [a], s, s', by simp, rest⟩

/-- The tasks of each run are in the order of the workflow that it was triggered for. -/
structure Ordered (h : System) (done : List Action) : Prop where
  candid : (h.run done).engine.Candid
  reached : ∀ s, (h.run done).engine.store = .sound s → ∃ evicted, Reachable evicted s
  orders : ∀ s, (h.run done).engine.store = .sound s →
    ∀ r ∈ s.dags, ∃ w, h.Triggered done r w ∧ s.Orders r w.definition

theorem start_ordered (settings : Settings) (days : TableDays) : (start settings days).Ordered [] := by
  refine ⟨start_candid settings days, ?_, ?_⟩
  · intro s store
    cases store
    exact ⟨[], .empty _⟩
  · intro s store r known
    cases store
    cases known

theorem run_snoc (h : System) (done : List Action) (a : Action) :
    h.run (done ++ [a]) = (h.run done).act a :=
  List.foldl_append ..

theorem Ordered.act (ordered : h.Ordered done) (fresh : (h.run done).Fresh a)
    (heeds : (h.run done).Heeds a) : h.Ordered (done ++ [a]) := by
  refine ⟨?_, fun s' store => ?_, fun s' store r known => ?_⟩ <;> rw [run_snoc] at *
  · exact (act_publishes ordered.candid fresh).candid ordered.candid
  · obtain ⟨s, was, rfl | ⟨c, more, done, _⟩⟩ := act_obeyed store
    · exact ordered.reached s' was
    · obtain ⟨evicted, reached⟩ := ordered.reached s was
      exact ⟨_, reached.after c done⟩
  · obtain ⟨s, was, rfl | ⟨c, more, done, told⟩⟩ := act_obeyed store
    · obtain ⟨w, triggered, orders⟩ := ordered.orders s' was r known
      exact ⟨w, triggered.more a, orders⟩
    · obtain ⟨evicted, reached⟩ := ordered.reached s was
      have honest : s.Honest c := by
        intro p o said d run
        obtain ⟨part, e, announced, read⟩ := told p o said
        exact heeds.ended (ordered.candid.faithful s was) part announced read run
      rcases obey_orders reached.sound reached.agenda honest done known with
        ⟨old, kept⟩ | ⟨new, w, registered, orders⟩
      · obtain ⟨w, triggered, orders⟩ := ordered.orders s was r old
        exact ⟨w, triggered.more a, kept _ orders⟩
      · exact ⟨w, ⟨_, a, [], s, s', rfl, was, store, new, known, registered⟩, orders⟩

theorem Ordered.run (ordered : h.Ordered done) (fresh : (h.run done).FreshRun later)
    (heedful : (h.run done).HeedfulRun later) : h.Ordered (done ++ later) := by
  induction later generalizing done with
  | nil => rwa [List.append_nil]
  | cons a rest ih =>
    rw [List.append_cons]
    refine ih (ordered.act fresh.1 heedful.1) ?_ ?_ <;> rw [run_snoc]
    · exact fresh.2
    · exact heedful.2

/-- If nothing is handled as an announcement that was not published, then each task of a run belongs to
a run that was triggered, and the tasks of each run are in the order of the workflow that was registered
at that time. -/
theorem steps_in_order (fresh : (start settings days).FreshRun actions)
    (heedful : (start settings days).HeedfulRun actions)
    (store : ((start settings days).run actions).engine.store = .sound s) :
    (∀ t ∈ s.tasks, ∀ d, t.dagId = some d → ∃ r ∈ s.dags, r.dag.id = d) ∧
      ∀ r ∈ s.dags, ∃ w, (start settings days).Triggered actions r w ∧
        s.InOrder r.dag.id w.definition := by
  have ordered : (start settings days).Ordered actions :=
    (start_ordered settings days).run fresh heedful
  refine ⟨fun t ht d run => ?_, fun r known => ?_⟩
  · obtain ⟨evicted, reached⟩ := ordered.reached s store
    exact reached.agenda.parts t.part (List.mem_map_of_mem ht) d run
  · obtain ⟨w, triggered, orders⟩ := ordered.orders s store r known
    exact ⟨w, triggered, orders.inOrder⟩

/-! ### A run of two steps -/

/-- Whoever rings is let in, and is greeted after that. -/
def visit : Workflow where
  id := ⟨1⟩
  name := "visit"
  eventTriggers := ["ring"]
  steps := [{ id := ⟨2⟩, readableId := "open", queue := "default" },
    { id := ⟨4⟩, readableId := "greet", queue := "default", parents := ["open"] }]

def installation : List Action :=
  [.command (.registerWorkflow ⟨3⟩ visit) (.refl true), .command (.createPartitions ⟨0⟩) (.refl true)]

def door : System := (start {} {}).run installation

def doorStore : Store :=
  match obeyAll { internalRetries := 3 } [.registerWorkflow ⟨3⟩ visit, .createPartitions ⟨0⟩] with
  | .ok (_, s) => s
  | .error _ => {}

def rung : Creation :=
  match doorStore.triggerEvents {} ⟨0⟩ ⟨3⟩ [⟨⟨5⟩, "ring", .null, []⟩] with
  | .ok c => c
  | .error _ => { store := {}, ids := {} }

def ring : UserEventPayload := { eventId := ⟨5⟩, key := "ring" }

def onRing : Action := .handle ⟨0⟩ ⟨3⟩ MessageKind.userEvent.name [Codec.toBytes ring]

theorem ring_decoded : decodePayloads UserEventPayload [Codec.toBytes ring] = [ring] := by
  rw [decodePayloads, List.filterMap_cons, Codec.ofBytes?_toBytes]
  rfl

theorem onRing_served : (door.act onRing).engine.store = .sound rung.store ∧
    (door.act onRing).engine.ids = ⟨2⟩ := by
  have made : doorStore.triggerEvents {} ⟨0⟩ ⟨3⟩ [⟨⟨5⟩, "ring", .null, []⟩] = .ok rung := rfl
  refine handle_served (s := doorStore) (r := .userEvents [ring])
    (x := Request.ofCreation rung ⟨0⟩ ⟨3⟩) rfl ?_ rfl ?_
  · exact congrArg (Except.ok ∘ Request.userEvents) ring_decoded
  · exact congrArg (fun c => do return Request.ofCreation (← c) ⟨0⟩ ⟨3⟩) made

def openDoorStore : Store := (rung.store.complete ⟨3⟩ [sent.attempt]).2

def onOpen : Action := .handle ⟨0⟩ ⟨3⟩ MessageKind.taskCompleted.name [Codec.toBytes sent]

def opening : InternalEventPayload := .completed ⟨0⟩ (.generated 2) ⟨"open", .null⟩

def onOpening : Action := .handle ⟨0⟩ ⟨3⟩ MessageKind.internalEvent.name [Codec.toBytes opening]

theorem opening_decoded :
    decodePayloads InternalEventPayload [Codec.toBytes opening] = [opening] := by
  rw [decodePayloads, List.filterMap_cons, Codec.ofBytes?_toBytes]
  rfl

def greeted : Creation :=
  match openDoorStore.matchOutcomes ⟨3⟩ ⟨0⟩ ⟨3⟩ [⟨⟨0⟩, opening.key, opening.data⟩] with
  | .ok c => c
  | .error _ => { store := {}, ids := {} }

theorem onOpen_served : ((door.act onRing).act onOpen).engine.store = .sound openDoorStore ∧
    ((door.act onRing).act onOpen).engine.ids = ⟨2⟩ := by
  obtain ⟨store, ids⟩ : (((door.act onRing).act onOpen).engine.store = .sound openDoorStore ∧
      ((door.act onRing).act onOpen).engine.ids = (door.act onRing).engine.ids) :=
    handle_completed onRing_served.1 sent_decoded
  exact ⟨store, ids.trans onRing_served.2⟩

theorem onOpen_published (free : (door.act onRing).engine.bus.blocked = []) :
    Message.internalEvents ⟨3⟩ [opening] ∈
      ((door.act onRing).act onOpen).engine.bus.published .tasks := by
  have asked : Request.ofPayloads .taskCompleted [Codec.toBytes sent] = .ok (.complete [sent]) :=
    congrArg (Except.ok ∘ Request.complete) sent_decoded
  have served : Request.serve rung.store ((door.act onRing).engine.ids.skip 0) ⟨0⟩ ⟨3⟩
      (.complete [sent]) = .ok (Request.serveComplete rung.store _ ⟨0⟩ ⟨3⟩ [sent]) := rfl
  have published : ((door.act onRing).act onOpen).engine.bus.published .tasks = _ :=
    handle_published onRing_served.1 asked rfl served free
  rw [published]
  exact List.mem_append_right _ List.mem_cons_self

theorem onOpening_served :
    (((door.act onRing).act onOpen).act onOpening).engine.store = .sound greeted.store ∧
      (((door.act onRing).act onOpen).act onOpening).engine.ids = ⟨4⟩ := by
  have made : openDoorStore.matchOutcomes ⟨3⟩ ⟨0⟩ ⟨3⟩ [⟨⟨0⟩, opening.key, opening.data⟩] =
    .ok greeted := rfl
  refine handle_served (s := openDoorStore) (r := .internalEvents [opening])
    (x := Request.ofCreation greeted ⟨0⟩ ⟨3⟩) onOpen_served.1 ?_ rfl ?_
  · exact congrArg (Except.ok ∘ Request.internalEvents) opening_decoded
  · rw [onOpen_served.2]
    exact congrArg (fun c => do return Request.ofCreation (← c) ⟨0⟩ ⟨3⟩) made

theorem greeted_tasks : greeted.store.tasks.map (fun t => (t.stepReadableId, t.initialState)) =
    [("open", .queued), ("greet", .queued)] := rfl

def visits : List Action := installation ++ [onRing, onOpen, onOpening]

theorem onRing_fresh : door.Fresh onRing := by
  refine fresh_of_drawn (s := doorStore) rfl rfl ?_ fun t ht => ?_
  · rw [onRing_served.2]
    decide
  · have none : doorStore.tasks = [] := rfl
    rw [none] at ht
    cases ht

theorem onOpening_fresh : ((door.act onRing).act onOpen).Fresh onOpening := by
  refine fresh_of_drawn onOpen_served.1 rfl ?_ fun t ht => ?_
  · rw [onOpening_served.2]
    decide
  · have ids : openDoorStore.tasks.map (·.externalId) = [.generated 2] := rfl
    have listed : t.externalId ∈ openDoorStore.tasks.map (·.externalId) := List.mem_map_of_mem ht
    rw [ids] at listed
    rw [onOpen_served.2]
    exact ⟨2, Nat.le_refl _, List.mem_singleton.mp listed⟩

theorem run_visits : (start {} {}).run visits = ((door.act onRing).act onOpen).act onOpening :=
  rfl

theorem visits_fresh : (start {} {}).FreshRun visits := by
  refine FreshRun.append ?_ ?_
  · exact ⟨fresh_of_ids rfl, fresh_of_ids rfl, trivial⟩
  · change door.FreshRun [onRing, onOpen, onOpening]
    exact ⟨onRing_fresh, fresh_of_ids (onOpen_served.2.trans onRing_served.2.symm), onOpening_fresh,
      trivial⟩

/-- What is handled of announcements was published when the door was opened. -/
theorem visits_heedful : (start {} {}).HeedfulRun visits := by
  have free : (door.act onRing).engine.bus.blocked = [] := by
    have candid : door.engine.Candid :=
      run_candid (start_candid {} {}) ⟨fresh_of_ids rfl, fresh_of_ids rfl, trivial⟩
    exact (act_publishes candid onRing_fresh).free
  refine ⟨trivial, trivial, ?_⟩
  change door.HeedfulRun [onRing, onOpen, onOpening]
  refine ⟨fun announces => ?_, fun announces => ?_, fun _ bytes given => ?_, trivial⟩
  · exact absurd announces (by decide)
  · exact absurd announces (by decide)
  · exact ⟨_, onOpen_published free, rfl, given⟩

theorem greeted_dags : greeted.store.dags.map (·.dag.id) = [1] := rfl

theorem visits_in_order : ∃ s, ((start {} {}).run visits).engine.store = .sound s ∧
    s.tasks.map (fun t => (t.stepReadableId, t.initialState)) =
      [("open", .queued), ("greet", .queued)] ∧
    ∃ r ∈ s.dags, ∃ w, (start {} {}).Triggered visits r w ∧ s.InOrder r.dag.id w.definition := by
  have store : ((start {} {}).run visits).engine.store = .sound greeted.store := by
    rw [run_visits]
    exact onOpening_served.1
  obtain ⟨_, ordered⟩ := steps_in_order visits_fresh visits_heedful store
  have listed : 1 ∈ greeted.store.dags.map (·.dag.id) := by
    rw [greeted_dags]
    exact List.mem_cons_self
  obtain ⟨r, known, _⟩ := List.mem_map.mp listed
  exact ⟨_, store, greeted_tasks, r, known, ordered r known⟩

end System

end WorkflowEngine
