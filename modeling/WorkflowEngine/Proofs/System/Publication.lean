import WorkflowEngine.Proofs.System.Outcomes
import WorkflowEngine.Proofs.System.Run

/-!
What the engine has published of outcomes. Along every run that draws new identifiers there is one
announcement of each task that has ended, with its outcome, and none of a task that has not.
-/

namespace WorkflowEngine

open Fallible Store

namespace Engine

/-- The outcomes that have been announced, from the first to the last. -/
def outcomes (e : Engine) : OutcomeLog := (e.bus.published .tasks).flatMap Message.outcomes

variable {e e' e'' : Engine} {ms : List Message}

/-- Whatever has happened to the store, the outcomes that it brought about were announced. -/
structure Publishes (e e' : Engine) : Prop where
  free : e'.bus.blocked = []
  told : ∃ news, e'.outcomes = e.outcomes ++ news ∧
    ∀ s', e'.store = .sound s' → ∃ s, e.store = .sound s ∧ s'.Sound ∧ Heard s s' news

/-- Nothing is refused by the bus, and what was announced is what became of the tasks of the store. -/
structure Candid (e : Engine) : Prop where
  free : e.bus.blocked = []
  sound : ∀ s, e.store = .sound s → s.Sound
  faithful : ∀ s, e.store = .sound s → Faithful e.outcomes s

theorem Publishes.candid (publishes : Publishes e e') (candid : e.Candid) : e'.Candid := by
  obtain ⟨news, log, told⟩ := publishes.told
  refine ⟨publishes.free, ?_, ?_⟩
  · intro s' store
    obtain ⟨_, _, sound, _⟩ := told s' store
    exact sound
  · intro s' store
    obtain ⟨s, was, _, heard⟩ := told s' store
    rw [log]
    exact heard _ (candid.faithful s was)

theorem Publishes.of_posted (free : e.bus.blocked = []) (posted : Posted .tasks e e' ms)
    (told : ∀ s', e'.store = .sound s' →
      ∃ s, e.store = .sound s ∧ s'.Sound ∧ Heard s s' (ms.flatMap Message.outcomes)) :
    Publishes e e' := by
  refine ⟨posted.blocked.trans free, ms.flatMap Message.outcomes, ?_, told⟩
  rw [outcomes, posted.published free, List.flatMap_append]
  rfl

/-- More messages may follow if they announce nothing. -/
theorem Publishes.posted (publishes : Publishes e e') (posted : Posted .tasks e' e'' ms)
    (silent : ms.flatMap Message.outcomes = []) (store : e''.store = e'.store) : Publishes e e'' := by
  obtain ⟨news, log, told⟩ := publishes.told
  refine ⟨posted.blocked.trans publishes.free, news, ?_, fun s' h => told s' (store ▸ h)⟩
  rw [outcomes, posted.published publishes.free, List.flatMap_append, silent, List.append_nil]
  exact log

section

variable (candid : e.Candid)
include candid

theorem publishes_nothing (bus : e'.bus = e.bus)
    (store : ∀ s, e'.store = .sound s → e.store = .sound s) : Publishes e e' := by
  refine ⟨bus ▸ candid.free, [], ?_, ?_⟩
  · rw [outcomes, bus, List.append_nil]
    rfl
  · exact fun s' h => ⟨s', store s' h, candid.sound s' (store s' h), .same rfl⟩

theorem write_publishes {α : Type} {op : Store → Except Fault (α × Store)}
    (silent : ∀ s a s', s.Sound → op s = .ok (a, s') → s'.Sound ∧ Heard s s' []) :
    Publishes e (e.write op).2 := by
  refine .of_posted candid.free (.nothing rfl rfl rfl rfl) fun s' h => ?_
  obtain ⟨s, was, rfl | ⟨a, done⟩⟩ := Guarded.write_sound h
  · exact ⟨s', was, candid.sound s' was, .same rfl⟩
  · exact ⟨s, was, silent s a s' (candid.sound s was) done⟩

theorem Idle.publishes (idle : Idle e e') : Publishes e e' :=
  publishes_nothing candid idle.bus idle.store

theorem Performed.publishes {s : Store} {x : Effect} (done : Performed e e' x)
    (store : e.store = .sound s) (airs : s.Sound → Airs s x) : Publishes e e' := by
  refine .of_posted candid.free (done.posted .tasks) fun s' h => ?_
  cases done.store.symm.trans h
  exact ⟨s, store, airs (candid.sound s store)⟩

end

end Engine

/-! ### Requests -/

/-- The external ids that payloads of a kind name: orders to run a workflow name the one of the run. -/
def namedIds (kindName : String) (payloads : List ByteArray) : List ExternalId :=
  if kindName = MessageKind.taskTrigger.name then
    (decodePayloads TriggerPayload payloads).map (·.externalId)
  else []

theorem TriggerPayload.externalId_lt {bytes : ByteArray} {p : TriggerPayload}
    (h : Codec.ofBytes? bytes = some p) : p.externalId.value < 2 ^ 128 := by
  obtain ⟨d, _, h⟩ := Option.bind_eq_some_iff.mp h
  obtain ⟨fields, _, h⟩ := Option.bind_eq_some_iff.mp h
  obtain ⟨id, read, h⟩ := Option.bind_eq_some_iff.mp h
  iterate 6 obtain ⟨_, _, h⟩ := Option.bind_eq_some_iff.mp h
  cases h
  obtain ⟨d, _, read⟩ := Fields.required_some read
  obtain ⟨text, _, read⟩ := Option.bind_eq_some_iff.mp read
  exact Identifier.parse?_lt read

namespace Request

/-- A request names the ids that its payloads name, and each of them has 128 bits. -/
theorem ofPayloads_named {kind : MessageKind} {payloads : List ByteArray} {r : Request}
    (h : ofPayloads kind payloads = .ok r) :
    r.named = namedIds kind.name payloads ∧ ∀ id ∈ r.named, id.value < 2 ^ 128 := by
  cases kind with
  | taskTrigger =>
    cases h
    refine ⟨rfl, fun id listed => ?_⟩
    obtain ⟨p, decoded, rfl⟩ := List.mem_map.mp listed
    obtain ⟨bytes, _, read⟩ := List.mem_filterMap.mp decoded
    exact TriggerPayload.externalId_lt read
  | taskCompleted | taskFailed | taskCancelled | userEvent | internalEvent =>
    cases h
    exact ⟨rfl, fun _ h => absurd h List.not_mem_nil⟩
  | createdTask | createdDag | createMonitoringEvent | notifyTaskCreated | notifyTaskReleased => cases h

end Request

namespace Engine

variable {e : Engine} (candid : e.Candid)
include candid

theorem handleTasks_publishes {now : Instant} {tenant : TenantId} {kindName : String}
    {payloads : List ByteArray}
    (unused : ∀ s, e.store = .sound s → DrawsUnused s (namedIds kindName payloads) e.ids
      (e.handleTasks now tenant kindName payloads).2.ids) :
    Publishes e (e.handleTasks now tenant kindName payloads).2 := by
  rcases e.handleTasks_cases now tenant kindName payloads with
    idle | ⟨kind, r, s, x, rfl, asked, store, served, done⟩
  · exact idle.publishes candid
  · obtain ⟨named, given⟩ := Request.ofPayloads_named asked
    -- Announcements that come in draw their identifiers first, and tasks draw theirs after them.
    have drawn : DrawsUnused s r.named (e.ids.skip r.draws) x.ids := by
      rw [named]
      exact (unused s store).between (Nat.le_add_right _ _) (Nat.le_of_eq (congrArg _ done.ids.symm))
    exact done.publishes candid store fun sound => serve_airs sound drawn given served

/-! ### Actions -/

theorem sweepOnce_publishes {now : Instant} {kind : Sweep} {tenant : TenantId} :
    Publishes e (e.sweepOnce now kind tenant).2 := by
  rcases e.sweepOnce_cases now kind tenant with idle | ⟨s, x, store, swept, done⟩
  · exact idle.publishes candid
  · exact done.publishes candid store fun sound => sweep_airs sound swept

theorem command_publishes {c : Command} (silent : c.isSilent = true) :
    Publishes e (e.write fun s => s.obey c).2 := by
  refine write_publishes candid fun s a s' sound done => ⟨(obey_moves done).sound sound, ?_⟩
  rcases obey_silent silent done with ⟨tasks, -⟩ | ⟨now, tenant, assignments, r, assigned⟩
  · exact .same tasks
  · exact assign_heard sound assigned

theorem evaluate_publishes (tenant : TenantId) (strategy : Strategy) :
    Publishes e (System.evaluate e tenant strategy) := by
  have ran : Publishes e (e.runStrategy tenant strategy).2 := by
    refine write_publishes candid fun s a s' sound done => ?_
    cases done
    exact ⟨runStrategy_sound sound tenant strategy, .same runStrategy_tasks⟩
  obtain ⟨store, placed, posted⟩ := e.evaluate_posted QueueName.scheduler_tasks tenant strategy
  -- An order to cancel goes to the queue of the outcomes, but it announces none.
  refine ran.posted posted ?_ store
  split
  · rw [List.flatMap_singleton, Message.cancelled_outcomes]
  · rfl

end Engine

/-! ### Runs -/

namespace System

def Action.named : Action → List ExternalId
  | .handle _ _ kindName payloads => namedIds kindName payloads
  | _ => []

/-- The identifiers that the action draws are new ones. -/
def Fresh (h : System) (a : Action) : Prop :=
  ∀ s, h.engine.store = .sound s → DrawsUnused s a.named h.engine.ids (h.act a).engine.ids

/-- Each action of a run draws new identifiers. -/
def FreshRun (h : System) : List Action → Prop
  | [] => True
  | a :: rest => h.Fresh a ∧ (h.act a).FreshRun rest

theorem act_publishes {h : System} {a : Action} (candid : h.engine.Candid) (fresh : h.Fresh a) :
    Engine.Publishes h.engine (h.act a).engine := by
  cases a with
  | command c silent => exact Engine.command_publishes candid silent
  | handle now tenant kindName payloads => exact Engine.handleTasks_publishes candid fresh
  | sweep now kind tenant => exact Engine.sweepOnce_publishes candid
  | evaluate tenant strategy => exact Engine.evaluate_publishes candid tenant strategy
  | deliver now n =>
    simp only [act, deliver]
    split
    · exact Engine.publishes_nothing candid rfl fun _ => id
    · split
      · exact Engine.publishes_nothing candid rfl fun _ => id
      · rename_i m _
        have aside := h.engine.handleReadModel_aside now m.tenantId m.kindName m.payloads
        split <;> rename_i result <;> rw [result] at aside <;>
          exact Engine.publishes_nothing candid aside.bus fun s h => aside.store ▸ h
  | pass now tenant table share =>
    have aside := h.engine.foldShare_aside now tenant table share
    exact Engine.publishes_nothing candid aside.bus fun s h => aside.store ▸ h

theorem run_candid {h : System} {actions : List Action} (candid : h.engine.Candid)
    (fresh : h.FreshRun actions) : (h.run actions).engine.Candid := by
  induction actions generalizing h with
  | nil => exact candid
  | cons a rest ih => exact ih ((act_publishes candid fresh.1).candid candid) fresh.2

theorem start_candid (settings : Settings) (days : TableDays) : (start settings days).engine.Candid := by
  refine ⟨rfl, ?_, ?_⟩
  · intro s store
    cases store
    exact sound_empty _
  · intro s store
    cases store
    exact faithful_empty _

variable {settings : Settings} {days : TableDays} {actions : List Action} {s : Store} {t : Task}

/-- However the engine is used, a task that has ended has been announced once, with its outcome, and a
task that has not ended has not been announced. -/
theorem outcomes_announced_once (fresh : (start settings days).FreshRun actions)
    (store : ((start settings days).run actions).engine.store = .sound s) (ht : t ∈ s.tasks) :
    ((start settings days).run actions).engine.outcomes.of t.externalId = t.state.outcome?.toList :=
  ((run_candid (start_candid settings days) fresh).faithful s store).told t ht

/-! ### A run -/

variable {h : System}

theorem FreshRun.append {actions later : List Action} (fresh : h.FreshRun actions)
    (more : (h.run actions).FreshRun later) : h.FreshRun (actions ++ later) := by
  induction actions generalizing h with
  | nil => exact more
  | cons a rest ih => exact ⟨fresh.1, ih fresh.2 more⟩

theorem fresh_of_ids {a : Action} (same : (h.act a).engine.ids = h.engine.ids) :
    h.Fresh a := by
  intro s _ k since upTo
  rw [same] at upTo
  omega

/-- Identifiers are new if the tasks have those that were drawn before. -/
theorem fresh_of_drawn {a : Action} (store : h.engine.store = .sound s) (unnamed : a.named = [])
    (few : (h.act a).engine.ids.drawn < 2 ^ 64)
    (drawn : ∀ t ∈ s.tasks, ∃ k ≤ h.engine.ids.drawn, t.externalId = .generated k) : h.Fresh a := by
  intro s' ready k since upTo
  cases store.symm.trans ready
  refine ⟨?_, unnamed ▸ List.not_mem_nil, fun t ht same => ?_⟩
  · simp only [Identifier.generated]
    omega
  · obtain ⟨j, before, id⟩ := drawn t ht
    have := Identifier.generated_injective (id.symm.trans same)
    omega

section

variable {now : Instant} {tenant : TenantId} {kind : MessageKind} {payloads : List ByteArray}
  {r : Request} {x : Effect} (store : h.engine.store = .sound s)
  (asked : Request.ofPayloads kind payloads = .ok r) (some : r.isEmpty = false)
  (served : Request.serve s (h.engine.ids.skip r.draws) now tenant r = .ok x)
include store asked some served

theorem handle_served : (h.act (.handle now tenant kind.name payloads)).engine.store = .sound x.store ∧
    (h.act (.handle now tenant kind.name payloads)).engine.ids = x.ids := by
  have handled := Engine.handleTasks_served asked some store served
  exact ⟨handled.2.store, handled.2.ids⟩

theorem handle_published (free : h.engine.bus.blocked = []) :
    (h.act (.handle now tenant kind.name payloads)).engine.bus.published .tasks =
      h.engine.bus.published .tasks ++ Posting.mail .tasks x.postings :=
  ((Engine.handleTasks_served asked some store served).2.posted .tasks).published free

end

theorem handle_completed {now : Instant} {tenant : TenantId} {payloads : List ByteArray}
    {p : CompletedPayload} (store : h.engine.store = .sound s)
    (decoded : decodePayloads CompletedPayload payloads = [p]) :
    (h.act (.handle now tenant MessageKind.taskCompleted.name payloads)).engine.store =
        .sound (s.complete tenant [p.attempt]).2 ∧
      (h.act (.handle now tenant MessageKind.taskCompleted.name payloads)).engine.ids = h.engine.ids :=
  handle_served (r := .complete [p]) (x := Request.serveComplete s h.engine.ids now tenant [p]) store
    (congrArg (Except.ok ∘ Request.complete) decoded) rfl rfl

/-- A workflow that mails everyone who signs up. -/
def welcome : Workflow where
  id := ⟨1⟩
  name := "mail"
  eventTriggers := ["signup"]
  steps := [{ id := ⟨2⟩, readableId := "send", queue := "default" }]

def preparations : List Action :=
  [.command (.registerWorkflow ⟨3⟩ welcome) rfl, .command (.createPartitions ⟨0⟩) rfl]

/-- The system that waits for somebody to sign up. -/
def opened : System := (start {} {}).run preparations

def openedStore : Store :=
  match obeyAll { internalRetries := 3 } [.registerWorkflow ⟨3⟩ welcome, .createPartitions ⟨0⟩] with
  | .ok (_, s) => s
  | .error _ => {}

/-- What is created when somebody does. -/
def signedUp : Creation :=
  match openedStore.triggerEvents {} ⟨0⟩ ⟨3⟩ [⟨⟨5⟩, "signup", .null, []⟩] with
  | .ok c => c
  | .error _ => { store := {}, ids := {} }

def signup : UserEventPayload := { eventId := ⟨5⟩, key := "signup" }

def onSignup : Action := .handle ⟨0⟩ ⟨3⟩ MessageKind.userEvent.name [Codec.toBytes signup]

theorem signup_asked :
    Request.ofPayloads .userEvent [Codec.toBytes signup] = .ok (.userEvents [signup]) := by
  have decoded : decodePayloads UserEventPayload [Codec.toBytes signup] = [signup] := by
    rw [decodePayloads, List.filterMap_cons, Codec.ofBytes?_toBytes]
    rfl
  exact congrArg (Except.ok ∘ Request.userEvents) decoded

theorem signup_served : Request.serve openedStore {} ⟨0⟩ ⟨3⟩ (.userEvents [signup]) =
    .ok (Request.ofCreation signedUp ⟨0⟩ ⟨3⟩) := by
  have made : openedStore.triggerEvents {} ⟨0⟩ ⟨3⟩ [⟨⟨5⟩, "signup", .null, []⟩] = .ok signedUp := rfl
  exact congrArg (fun c => do return Request.ofCreation (← c) ⟨0⟩ ⟨3⟩) made

theorem onSignup_served : (opened.act onSignup).engine.store = .sound signedUp.store ∧
    (opened.act onSignup).engine.ids = ⟨1⟩ :=
  handle_served (s := openedStore) (x := Request.ofCreation signedUp ⟨0⟩ ⟨3⟩) rfl signup_asked rfl
    signup_served

def sent : CompletedPayload := { taskId := 1, retryCount := 0 }

theorem sent_read : (Codec.ofBytes? (Codec.toBytes sent) : Option CompletedPayload) = some sent := by
  rw [Codec.ofBytes?_toBytes]
  rfl

theorem sent_decoded : decodePayloads CompletedPayload [Codec.toBytes sent] = [sent] := by
  rw [decodePayloads, List.filterMap_cons, sent_read]
  rfl

def onSent : Action := .handle ⟨0⟩ ⟨3⟩ MessageKind.taskCompleted.name [Codec.toBytes sent]

theorem onSent_served : ((opened.act onSignup).act onSent).engine.store =
      .sound (signedUp.store.complete ⟨3⟩ [sent.attempt]).2 ∧
    ((opened.act onSignup).act onSent).engine.ids = (opened.act onSignup).engine.ids :=
  handle_completed onSignup_served.1 sent_decoded

theorem sent_tasks : (signedUp.store.complete ⟨3⟩ [sent.attempt]).2.tasks.map
    (fun t => (t.externalId, t.state)) = [(.generated 1, .completed)] := rfl

/-- Somebody signs up, and the mail is sent. -/
def signups : List Action := preparations ++ [onSignup, onSent]

theorem run_signups : (start {} {}).run signups = (opened.act onSignup).act onSent :=
  List.foldl_append ..

theorem onSignup_fresh : opened.Fresh onSignup := by
  refine fresh_of_drawn (s := openedStore) rfl rfl ?_ fun t ht => ?_
  · rw [onSignup_served.2]
    decide
  · have none : openedStore.tasks = [] := rfl
    rw [none] at ht
    cases ht

theorem onSent_fresh : (opened.act onSignup).Fresh onSent := fresh_of_ids onSent_served.2

/-- Only the identifier of the task is drawn. -/
theorem signups_fresh : (start {} {}).FreshRun signups := by
  refine FreshRun.append ?_ ?_
  · exact ⟨fresh_of_ids rfl, fresh_of_ids rfl, trivial⟩
  · change opened.FreshRun [onSignup, onSent]
    exact ⟨onSignup_fresh, onSent_fresh, trivial⟩

theorem signups_announced_once : ∃ s t, ((start {} {}).run signups).engine.store = .sound s ∧
    t ∈ s.tasks ∧ t.externalId = .generated 1 ∧
      ((start {} {}).run signups).engine.outcomes.of t.externalId = [.completed] := by
  have store : ((start {} {}).run signups).engine.store =
      .sound (signedUp.store.complete ⟨3⟩ [sent.attempt]).2 := by
    rw [run_signups]
    exact onSent_served.1
  have listed : (Identifier.generated 1, TaskState.completed) ∈
      (signedUp.store.complete ⟨3⟩ [sent.attempt]).2.tasks.map fun t => (t.externalId, t.state) := by
    rw [sent_tasks]
    exact List.mem_singleton.mpr rfl
  obtain ⟨t, ht, same⟩ := List.mem_map.mp listed
  obtain ⟨id, state⟩ := Prod.mk.inj same
  have announced := outcomes_announced_once signups_fresh store ht
  rw [state] at announced
  exact ⟨_, t, store, ht, id, announced⟩

end System

end WorkflowEngine
