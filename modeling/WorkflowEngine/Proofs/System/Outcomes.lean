import WorkflowEngine.Proofs.Store.Outcomes
import WorkflowEngine.Proofs.System.Telling

/-!
The outcomes that the engine announces. Among the messages of every request and of every sweep are the
announcements of exactly those tasks that it ended.
-/

namespace WorkflowEngine

open Fallible Store

variable {tenant : TenantId} {s s' : Store} {ids : IdSource} {now : Instant}

/-! ### Announcements -/

/-- The outcomes that a message announces, one for each payload with the key of one. -/
def Message.outcomes (m : Message) : OutcomeLog :=
  if m.kindName = MessageKind.internalEvent.name then
    m.payloads.filterMap fun bytes => (InternalEventPayload.keyOf? bytes).bind Outcome.ofKey?
  else []

theorem Message.internalEvents_outcomes (ps : List InternalEventPayload) :
    (Message.internalEvents tenant ps).outcomes = ps.filterMap (Outcome.ofKey? ·.key) := by
  rw [outcomes, if_pos (by rfl), internalEvents, ofPayloads, List.filterMap_map]
  refine List.filterMap_congr fun p _ => ?_
  rw [Function.comp_apply, InternalEventPayload.keyOf?_toBytes, Option.bind_some]

theorem Message.cancelled_outcomes (ps : List CancelledPayload) :
    (Message.cancelled tenant ps).outcomes = [] :=
  if_neg (show MessageKind.taskCancelled.name ≠ MessageKind.internalEvent.name by decide)

namespace Posting

/-- The outcomes that are announced among messages to be sent. -/
def outcomes (ps : List Posting) : OutcomeLog := (mail .tasks ps).flatMap Message.outcomes

@[simp] theorem outcomes_append (ps qs : List Posting) : outcomes (ps ++ qs) = outcomes ps ++ outcomes qs := by
  rw [outcomes, mail_append, List.flatMap_append]
  rfl

theorem outcomes_silent {ps : List Posting} (silent : mail .tasks ps = []) : outcomes ps = [] := by
  rw [outcomes, silent]
  rfl

@[simp] theorem outcomes_internalEvents (ps : List InternalEventPayload) :
    outcomes (internalEvents tenant ps) = ps.filterMap (Outcome.ofKey? ·.key) := by
  cases ps with
  | nil => rfl
  | cons p rest =>
    have mail : mail .tasks (internalEvents tenant (p :: rest)) =
        [Message.internalEvents tenant (p :: rest)] := by
      simp [Posting.mail, internalEvents, ofPayloads, to?]
    rw [outcomes, mail, List.flatMap_singleton, Message.internalEvents_outcomes]

@[simp] theorem outcomes_monitoring (ps : List MonitoringPayload) : outcomes (monitoring tenant ps) = [] :=
  outcomes_silent (mail_ofPayloads_other QueueName.readModel_tasks)

@[simp] theorem outcomes_released (s : Store) (tasks : List ReleasedTask) :
    outcomes (released s tenant tasks) = [] :=
  outcomes_silent (mail_released QueueName.scheduler_tasks ..)

@[simp] theorem outcomes_created (s : Store) (entries : List (String × List StrategyId)) :
    outcomes (created s tenant entries) = [] :=
  outcomes_silent (mail_created QueueName.scheduler_tasks ..)

@[simp] theorem outcomes_stops (s : Store) (attempts : List (Attempt × WorkerId)) :
    outcomes (stops s tenant attempts) = [] :=
  outcomes_silent (mail_stops QueueName.dispatcher_tasks ..)

end Posting

/-! ### Requests -/

/-- What is announced of attempts under the keys of one outcome. -/
theorem outcomes_of_released {released : List ReleasedTask} {o : Outcome}
    {payload : ReleasedTask → InternalEventPayload}
    (keyed : ∀ t, (payload t).key = o.key t.externalId) :
    (released.map payload).filterMap (Outcome.ofKey? ·.key) = released.map (·.news o) := by
  rw [List.filterMap_map, ← List.filterMap_eq_map]
  refine List.filterMap_congr fun t _ => ?_
  rw [Function.comp_apply, keyed, Outcome.ofKey?_key]
  rfl

/-- The store of the effect is sound, and its messages announce the outcomes that it brought about. -/
def Airs (s : Store) (x : Effect) : Prop := x.store.Sound ∧ Heard s x.store (Posting.outcomes x.postings)

theorem serveComplete_airs (sound : s.Sound) (payloads : List CompletedPayload) :
    Airs s (Request.serveComplete s ids now tenant payloads) := by
  refine ⟨(complete_quiet s tenant _).sound sound, ?_⟩
  have news : Posting.outcomes (Request.serveComplete s ids now tenant payloads).postings =
      (s.complete tenant (payloads.map (·.attempt))).1.map (·.news .completed) := by
    simp only [Request.serveComplete, Posting.outcomes_append, Posting.outcomes_internalEvents,
      Posting.outcomes_monitoring, Posting.outcomes_released, List.append_nil]
    exact outcomes_of_released fun _ => rfl
  rw [news]
  exact complete_heard sound _

theorem serveCancel_airs (sound : s.Sound) (payloads : List CancelledPayload) :
    Airs s (Request.serveCancel s ids now tenant payloads) := by
  refine ⟨(cancel_quiet s tenant _).sound sound, ?_⟩
  have news : Posting.outcomes (Request.serveCancel s ids now tenant payloads).postings =
      (s.cancel tenant (payloads.map (·.attempt))).1.map (·.news .cancelled) := by
    simp only [Request.serveCancel, Posting.outcomes_append, Posting.outcomes_internalEvents,
      Posting.outcomes_monitoring, Posting.outcomes_released, Posting.outcomes_stops, List.append_nil,
      List.nil_append]
    exact outcomes_of_released fun _ => rfl
  rw [news]
  exact cancel_heard sound _

theorem failAndAnnounce_airs {failures : List Failure} {result : FailureResult}
    {postings : List Posting} {counts : List (Counter × Nat)} (sound : s.Sound)
    (h : failAndAnnounce s now tenant failures = .ok (result, s', postings, counts)) :
    s'.Sound ∧ Heard s s' (Posting.outcomes postings) := by
  obtain ⟨⟨r, s₁⟩, failed, h⟩ := bind_ok h
  cases h
  refine ⟨(fail_quiet failed).sound sound, ?_⟩
  simp only [Posting.outcomes_append, Posting.outcomes_internalEvents, Posting.outcomes_monitoring,
    Posting.outcomes_released, Posting.outcomes_created, List.append_nil]
  rw [outcomes_of_released fun _ => rfl]
  exact fail_heard sound failed

theorem serveFail_airs {x : Effect} {payloads : List FailedPayload} (sound : s.Sound)
    (h : Request.serveFail s ids now tenant payloads = .ok x) : Airs s x := by
  obtain ⟨⟨result, s₁, postings, counts⟩, failed, h⟩ := bind_ok h
  cases h
  exact failAndAnnounce_airs sound failed

/-- A task that ended when it was created is announced with its outcome. -/
theorem endedAtCreation_outcome {t : Task} (now : Instant) (state : t.state = t.initialState.state) :
    ((endedAtCreation now t).bind (Outcome.ofKey? ·.1.key)).toList = t.news := by
  have read : ∀ o : Outcome, Outcome.ofKey? (o.key t.externalId) = some (o, t.externalId.asRead) :=
    fun o => Outcome.ofKey?_key o t.externalId
  rw [Task.news, state]
  cases initial : t.initialState with
  | queued => simp [endedAtCreation, initial, InitialState.state, TaskState.outcome?]
  | failed =>
    simp [endedAtCreation, initial, InitialState.state, TaskState.outcome?,
      InternalEventPayload.failed, read]
  | cancelled =>
    simp [endedAtCreation, initial, InitialState.state, TaskState.outcome?,
      InternalEventPayload.cancelled, read]
  | skipped =>
    simp [endedAtCreation, initial, InitialState.state, TaskState.outcome?,
      InternalEventPayload.completed, read]

theorem outcomes_of_new (now : Instant) {new : List Task} (born : ∀ t ∈ new, t.state = t.initialState.state) :
    ((new.filterMap (endedAtCreation now)).map (·.1)).filterMap (Outcome.ofKey? ·.key) =
      new.flatMap Task.news := by
  induction new with
  | nil => rfl
  | cons t rest ih =>
    rw [List.flatMap_cons, ← ih fun u hu => born u (List.mem_cons_of_mem t hu),
      ← endedAtCreation_outcome now (born t List.mem_cons_self)]
    cases ended : endedAtCreation now t with
    | none => rw [List.filterMap_cons_none ended]; rfl
    | some e =>
      rw [List.filterMap_cons_some ended, List.map_cons, List.filterMap_cons]
      cases read : Outcome.ofKey? e.1.key <;> simp [read]

/-- New tasks are announced if they ended at once. -/
theorem ofCreation_airs {c : Creation} {named : List ExternalId} (sound : s.Sound)
    (made : Creation.Creates tenant named { store := s, ids } c)
    (unused : DrawsUnused s named ids c.ids) (given : ∀ id ∈ named, id.value < 2 ^ 128) :
    Airs s (Request.ofCreation c now tenant) := by
  obtain ⟨new, listed, heard, born⟩ := creates_heard made unused given
  refine ⟨made.quiet.sound sound, ?_⟩
  have news : Posting.outcomes (Request.ofCreation c now tenant).postings = new.flatMap Task.news := by
    rw [List.nil_append] at listed
    rw [← outcomes_of_new now born, ← listed]
    simp [Request.ofCreation, announceCreated, Posting.outcomes_silent]
  rw [news]
  exact heard

/-- The external ids that a request names. -/
def Request.named : Request → List ExternalId
  | trigger payloads => payloads.map (·.externalId)
  | _ => []

/-- Whatever is asked of the store, the outcomes are announced. -/
theorem serve_airs {r : Request} {x : Effect} (sound : s.Sound)
    (unused : DrawsUnused s r.named ids x.ids) (given : ∀ id ∈ r.named, id.value < 2 ^ 128)
    (h : Request.serve s ids now tenant r = .ok x) : Airs s x := by
  cases r with
  | complete payloads =>
    cases h
    exact serveComplete_airs sound payloads
  | fail payloads => exact serveFail_airs sound h
  | cancel payloads =>
    cases h
    exact serveCancel_airs sound payloads
  | userEvents payloads =>
    obtain ⟨c, triggered, h⟩ := bind_ok h
    cases h
    exact ofCreation_airs sound (triggerEvents_creates triggered) unused given
  | trigger payloads =>
    obtain ⟨c, triggered, h⟩ := bind_ok h
    cases h
    have made := triggerRuns_creates triggered
    rw [List.map_map] at made
    exact ofCreation_airs sound made unused given
  | internalEvents payloads =>
    obtain ⟨c, matched, h⟩ := bind_ok h
    cases h
    exact ofCreation_airs sound (matchOutcomes_creates matched) unused given

/-! ### Sweeps -/

theorem sweep_airs {kind : Sweep} {limit : Nat} {x : SweepEffect} (sound : s.Sound)
    (h : sweep kind s ids now tenant limit = .ok x) : Airs s x.effect := by
  have nothing : Airs s { store := s, ids } := ⟨sound, .same rfl⟩
  cases kind with
  | timeout =>
    simp only [sweep, sweepTimeouts] at h
    split at h
    · cases h
      exact nothing
    · obtain ⟨⟨result, s₁, postings, counts⟩, failed, h⟩ := bind_ok h
      cases h
      simpa [Airs] using failAndAnnounce_airs sound failed
  | reassign =>
    simp only [sweep, sweepStranded] at h
    split at h
    · cases h
      exact nothing
    · obtain ⟨⟨result, s₁, postings, counts⟩, failed, h⟩ := bind_ok h
      cases h
      simpa [Airs] using failAndAnnounce_airs sound failed

end WorkflowEngine
