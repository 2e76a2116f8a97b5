import WorkflowEngine.Proofs.System.Notice

/-!
Every request and every sweep announces what it did to the store: the notices among its messages
report all of it.
-/

namespace WorkflowEngine

open Fallible Store

variable {s s' : Store} {ids : IdSource} {now : Instant} {tenant : TenantId}

/-- An effect on the store, with the notices among its messages. -/
def Announces (s : Store) (x : Effect) : Prop :=
  ∃ ns, Posting.mail .readModel x.postings = ns.map Notice.message ∧ Announced s x.store ns

/-! ### Attempts that end -/

/-- Events are told by one notice, whatever else is sent. -/
theorem mail_around {before after : List Posting} {ps : List MonitoringPayload}
    (first : Posting.mail .readModel before = []) (last : Posting.mail .readModel after = []) :
    Posting.mail .readModel (before ++ Posting.monitoring tenant ps ++ after) =
      (Notice.ofEvents tenant ps).map Notice.message := by
  rw [Posting.mail_append, Posting.mail_append, first, last, Posting.mail_monitoring,
    List.nil_append, List.append_nil]

theorem reports_of_released (type : EventType) {released : List ReleasedTask}
    {payload : ReleasedTask → MonitoringPayload}
    (about : ∀ t ∈ released, (payload t).report? tenant = some (t.report tenant type)) :
    (released.map payload).filterMap (·.report? tenant) = released.map (·.report tenant type) := by
  rw [List.filterMap_map, ← List.filterMap_eq_map]
  exact List.filterMap_congr about

theorem serveComplete_announces (sound : s.Sound) (moment : Instant.inRange now.nanos = true)
    (payloads : List CompletedPayload) :
    Announces s (Request.serveComplete s ids now tenant payloads) := by
  refine ⟨Notice.ofEvents tenant _, mail_around (by simp) (by simp), ?_⟩
  refine .ofEvents ((complete_quiet s tenant _).sound sound) ?_ ?_
  · rw [reports_of_released .finished fun t _ => MonitoringPayload.report?_named tenant rfl]
    exact complete_told sound _
  · intro p hp
    obtain ⟨t, _, rfl⟩ := List.mem_map.mp hp
    exact moment

theorem mem_of_findRev? {α : Type} {p : α → Bool} {l : List α} {a : α} (h : l.findRev? p = some a) :
    a ∈ l := by
  rw [List.findRev?_eq_find?_reverse] at h
  exact List.mem_reverse.mp (List.mem_of_find?_eq_some h)

theorem serveCancel_announces (sound : s.Sound) (moment : Instant.inRange now.nanos = true)
    {payloads : List CancelledPayload} (plain : ∀ p ∈ payloads, p.eventType = .cancelled) :
    Announces s (Request.serveCancel s ids now tenant payloads) := by
  refine ⟨Notice.ofEvents tenant _, mail_around (by simp) (by simp), ?_⟩
  refine .ofEvents ((cancel_quiet s tenant _).sound sound) ?_ ?_
  · rw [reports_of_released .cancelled]
    · exact cancel_told sound _
    · intro t _
      refine MonitoringPayload.report?_named tenant (congrArg EventType.name ?_)
      change ((payloads.findRev? (·.attempt == t.attempt)).map (·.eventType)).getD .cancelled = .cancelled
      cases found : payloads.findRev? (·.attempt == t.attempt) with
      | none => rfl
      | some order => exact plain order (mem_of_findRev? found)
  · intro p hp
    obtain ⟨t, _, rfl⟩ := List.mem_map.mp hp
    exact moment

/-! ### Failures -/

theorem failAndAnnounce_told {failures : List Failure} {result : FailureResult}
    {postings : List Posting} {counts : List (Counter × Nat)}
    (moment : Instant.inRange now.nanos = true)
    (h : failAndAnnounce s now tenant failures = .ok (result, s', postings, counts)) :
    s.fail now tenant failures = .ok (result, s') ∧ ∃ ps : List MonitoringPayload,
      Posting.mail .readModel postings = (Notice.ofEvents tenant ps).map Notice.message ∧
        ps.filterMap (·.report? tenant) = failureReports tenant result ∧
          ∀ p ∈ ps, Instant.inRange p.timestamp.nanos = true := by
  obtain ⟨⟨r, s₁⟩, failed, h⟩ := bind_ok h
  cases h
  refine ⟨failed, _, (congrArg (Posting.mail QueueName.readModel) (List.append_assoc ..)).trans
    (mail_around (by simp) (by simp)), ?_, ?_⟩
  · rw [List.filterMap_append, reports_of_released .failed fun t _ => MonitoringPayload.report?_named tenant rfl,
      failureReports]
    congr 1
    rw [List.filterMap_map, ← List.filterMap_eq_map]
    exact List.filterMap_congr fun t _ => MonitoringPayload.report?_named tenant rfl
  · intro p hp
    rcases List.mem_append.mp hp with ended | waits
    · obtain ⟨t, _, rfl⟩ := List.mem_map.mp ended
      exact moment
    · obtain ⟨t, _, rfl⟩ := List.mem_map.mp waits
      exact moment

theorem serveFail_announces {x : Effect} {payloads : List FailedPayload} (sound : s.Sound)
    (moment : Instant.inRange now.nanos = true)
    (h : Request.serveFail s ids now tenant payloads = .ok x) : Announces s x := by
  obtain ⟨⟨result, s₁, postings, counts⟩, failed, h⟩ := bind_ok h
  cases h
  obtain ⟨failed, ps, mail, reports, timely⟩ := failAndAnnounce_told moment failed
  exact ⟨Notice.ofEvents tenant ps, mail, .ofEvents ((fail_quiet failed).sound sound)
    (reports ▸ (fail_told sound failed).1) timely⟩

/-! ### Creation -/

/-- The event that announces a task that ended at once is the one it reports. -/
theorem endedAtCreation_report {t : Task} (now : Instant) (owned : t.tenantId = tenant) :
    ((endedAtCreation now t).map (·.2)).bind (·.report? tenant) = birth t := by
  unfold endedAtCreation birth
  rw [owned]
  cases t.initialState <;> rfl

theorem endedAtCreation_moment {t : Task} {e : InternalEventPayload × MonitoringPayload}
    (h : endedAtCreation now t = some e) : e.2.timestamp = now := by
  unfold endedAtCreation at h
  split at h <;> cases h <;> rfl

theorem ofCreation_announces {c : Creation} (sound : c.store.Sound)
    (moment : Instant.inRange now.nanos = true) {named : List ExternalId}
    (made : Creation.Creates tenant named { store := s, ids } c) :
    Announces s (Request.ofCreation c now tenant) := by
  obtain ⟨new, stored, all, last, born⟩ := made.tasks
  rw [List.nil_append] at all
  let ended : List MonitoringPayload := (c.tasks.filterMap (endedAtCreation now)).map (·.2)
  refine ⟨Notice.ofTasks tenant c.tasks ++ Notice.ofDags tenant c.dags ++ Notice.ofEvents tenant ended,
    by simp [Request.ofCreation, announceCreated, ended], ?_⟩
  have reports : ended.filterMap (·.report? tenant) = new.filterMap birth := by
    rw [← all, List.filterMap_map, List.filterMap_filterMap]
    refine List.filterMap_congr fun t ht => ?_
    rw [← endedAtCreation_report now (born t (all ▸ ht)).tenant]
    cases endedAtCreation now t <;> rfl
  have quiet : ∀ n ∈ Notice.ofDags tenant c.dags ++ Notice.ofEvents tenant ended, n.created = [] := by
    intro n hn
    rcases List.mem_append.mp hn with dags | events
    · rw [Notice.mem_ofDags dags]
      rfl
    · rw [Notice.mem_ofEvents events]
      rfl
  rw [List.append_assoc]
  refine ⟨sound, ?_, ?_, ?_, ?_⟩
  · rw [List.flatMap_append, List.flatMap_append, Notice.ofTasks_reports, Notice.ofDags_reports,
      Notice.ofEvents_reports, List.nil_append, List.nil_append, reports]
    exact .created stored last fun t ht => ⟨(born t ht).retryCount, (born t ht).state⟩
  · intro n hn
    rcases List.mem_append.mp hn with tasks | rest
    · rw [Notice.mem_ofTasks tasks]
      trivial
    · rcases List.mem_append.mp rest with dags | events
      · rw [Notice.mem_ofDags dags]
        trivial
      · rw [Notice.mem_ofEvents events]
        intro p hp
        obtain ⟨e, he, rfl⟩ := List.mem_map.mp hp
        obtain ⟨t, _, at'⟩ := List.mem_filterMap.mp he
        exact (endedAtCreation_moment at').symm ▸ moment
  · intro n hn i hi
    rcases List.mem_append.mp hn with tasks | rest
    · rw [Notice.mem_ofTasks tasks] at hi
      obtain ⟨t, ht, rfl⟩ := List.mem_map.mp hi
      exact (born t (all ▸ ht)).id
    · rw [quiet n rest] at hi
      cases hi
  · refine List.pairwise_append.mpr ⟨?_, Notice.ordered_of_quiet quiet, ?_⟩
    · unfold Notice.ofTasks
      split
      · exact .nil
      · exact List.pairwise_singleton _ _
    · intro a _ b hb i hi
      rw [quiet b hb] at hi
      cases hi

theorem serveUserEvents_announces {x : Effect} {payloads : List UserEventPayload} (sound : s.Sound)
    (moment : Instant.inRange now.nanos = true)
    (h : Request.serveUserEvents s ids now tenant payloads = .ok x) : Announces s x := by
  obtain ⟨c, triggered, h⟩ := bind_ok h
  cases h
  exact ofCreation_announces ((triggerEvents_quiet triggered).sound sound) moment
    (triggerEvents_creates triggered)

theorem serveTrigger_announces {x : Effect} {payloads : List TriggerPayload} (sound : s.Sound)
    (moment : Instant.inRange now.nanos = true)
    (h : Request.serveTrigger s ids now tenant payloads = .ok x) : Announces s x := by
  obtain ⟨c, triggered, h⟩ := bind_ok h
  cases h
  exact ofCreation_announces ((triggerRuns_quiet triggered).sound sound) moment
    (triggerRuns_creates triggered)

theorem serveInternalEvents_announces {x : Effect} {payloads : List InternalEventPayload}
    (sound : s.Sound) (moment : Instant.inRange now.nanos = true)
    (h : Request.serveInternalEvents s ids now tenant payloads = .ok x) : Announces s x := by
  obtain ⟨c, matched, h⟩ := bind_ok h
  cases h
  exact ofCreation_announces ((matchOutcomes_quiet matched).sound sound) moment
    (matchOutcomes_creates matched)

/-- Cancellations are of the plain kind. -/
def Request.Plain : Request → Prop
  | cancel payloads => ∀ p ∈ payloads, p.eventType = .cancelled
  | _ => True

/-- Whatever is asked of the store, the answer is announced. -/
theorem serve_announces {r : Request} {x : Effect} (sound : s.Sound)
    (moment : Instant.inRange now.nanos = true) (plain : r.Plain)
    (h : Request.serve s ids now tenant r = .ok x) : Announces s x := by
  cases r with
  | complete payloads =>
    cases h
    exact serveComplete_announces sound moment payloads
  | fail payloads => exact serveFail_announces sound moment h
  | cancel payloads =>
    cases h
    exact serveCancel_announces sound moment plain
  | userEvents payloads => exact serveUserEvents_announces sound moment h
  | trigger payloads => exact serveTrigger_announces sound moment h
  | internalEvents payloads => exact serveInternalEvents_announces sound moment h

/-! ### Sweeps -/

theorem Status.rank_le_failed (status : Status) : status.rank ≤ Status.failed.rank := by
  cases status <;> decide

theorem TaskState.eq_failed {state : TaskState} (rank : Status.failed.rank ≤ state.shown.rank) :
    state = .failed := by
  cases state <;> first | rfl | exact absurd rank (by decide)

/-- An attempt that a failure moved is over. -/
theorem moved_over {failures : List Failure} {result : FailureResult} {a : Attempt} (sound : s.Sound)
    (failed : s.fail now tenant failures = .ok (result, s')) (moved : a ∈ result.moved) :
    ∃ u ∈ s'.tasks, u.id = a.id ∧ u.tenantId = tenant ∧
      ((u.retryCount = a.retryCount ∧ u.state = .failed) ∨ a.retryCount < u.retryCount) := by
  obtain ⟨told, follows⟩ := fail_told sound failed
  rcases List.mem_append.mp moved with ended | waits
  · obtain ⟨t, ht, rfl⟩ := List.mem_map.mp ended
    obtain ⟨u, hu, fits⟩ := told.told (t.report tenant .failed)
      (List.mem_append_left _ (List.mem_map_of_mem ht))
    refine ⟨u, hu, fits.task, fits.tenant, Or.inl ?_⟩
    rcases fits.said with ⟨waits, _⟩ | ⟨attempt, _, rank⟩ | ⟨_, timeout⟩
    · cases waits
    · exact ⟨attempt.symm, TaskState.eq_failed rank⟩
    · cases timeout
  · obtain ⟨t, ht, rfl⟩ := List.mem_map.mp waits
    obtain ⟨u, hu, fits⟩ := told.told (t.report tenant)
      (List.mem_append_right _ (List.mem_map_of_mem ht))
    obtain ⟨id, next⟩ := follows t ht
    refine ⟨u, hu, fits.task.trans id, fits.tenant, Or.inr ?_⟩
    rcases fits.said with ⟨_, attempt⟩ | ⟨attempt, ended, rank⟩ | ⟨_, timeout⟩
    · rw [← Int.add_one_le_iff, ← next]
      exact attempt
    · rw [← Int.add_one_le_iff, ← next]
      exact Int.le_of_eq attempt
    · cases timeout

/-- Besides the failures themselves a sweep tells why the attempts failed. -/
theorem announces_reasons {x : Effect} {postings rest : List Posting} {failures : List Failure}
    {result : FailureResult} {counts : List (Counter × Nat)} {reasons : List MonitoringPayload}
    (sound : s.Sound) (moment : Instant.inRange now.nanos = true)
    (failed : failAndAnnounce s now tenant failures = .ok (result, x.store, postings, counts))
    (sent : x.postings = postings ++ Posting.monitoring tenant reasons ++ rest)
    (quiet : Posting.mail .readModel rest = []) (timely : ∀ p ∈ reasons, p.timestamp = now)
    (fits : ∀ r ∈ reasons.filterMap (·.report? tenant), ∃ u ∈ x.store.tasks, r.Fits u) :
    Announces s x := by
  obtain ⟨failed, ps, mail, reports, times⟩ := failAndAnnounce_told moment failed
  refine ⟨Notice.ofEvents tenant ps ++ Notice.ofEvents tenant reasons, ?_,
    (fail_quiet failed).sound sound, ?_, ?_, ?_, ?_⟩
  · rw [sent, Posting.mail_append, Posting.mail_append, mail, quiet, Posting.mail_monitoring,
      List.append_nil, List.map_append]
  · rw [List.flatMap_append, Notice.ofEvents_reports, Notice.ofEvents_reports, reports]
    refine (fail_told sound failed).1.add (fun r => List.mem_append_left _) ?_
    exact fun r hr => (List.mem_append.mp hr).imp_right (fits r)
  · intro n hn
    rcases List.mem_append.mp hn with ended | why
    · rw [Notice.mem_ofEvents ended]
      exact times
    · rw [Notice.mem_ofEvents why]
      exact fun p hp => timely p hp ▸ moment
  · intro n hn i hi
    rcases List.mem_append.mp hn with ended | why
    · rw [Notice.mem_ofEvents ended] at hi
      cases hi
    · rw [Notice.mem_ofEvents why] at hi
      cases hi
  · refine Notice.ordered_of_quiet fun n hn => ?_
    rcases List.mem_append.mp hn with ended | why
    · rw [Notice.mem_ofEvents ended]
      rfl
    · rw [Notice.mem_ofEvents why]
      rfl

/-- A missed deadline of an attempt that is over is a true report. -/
theorem timeout_fits {u : Task} {a : Attempt} {type : EventType} (timeout : type.isTimeout = true)
    (id : u.id = a.id) (owner : u.tenantId = tenant)
    (over' : (u.retryCount = a.retryCount ∧ u.state = .failed) ∨ a.retryCount < u.retryCount) :
    Report.Fits ⟨tenant, a.id, a.retryCount, type⟩ u := by
  refine ⟨id, owner, ?_⟩
  rcases over' with ⟨attempt, state⟩ | later
  · refine Or.inr (Or.inl ⟨attempt.symm, by rw [state]; rfl, ?_⟩)
    rw [state]
    exact Status.rank_le_failed _
  · exact Or.inr (Or.inr ⟨later, timeout⟩)

theorem sweepTimeouts_announces {limit : Nat} {x : SweepEffect} (sound : s.Sound)
    (moment : Instant.inRange now.nanos = true)
    (h : sweepTimeouts s ids now tenant limit = .ok x) : Announces s x.effect := by
  unfold sweepTimeouts at h
  split at h
  · cases h
    exact ⟨[], rfl, .silent sound (.same rfl rfl)⟩
  · obtain ⟨⟨result, s₁, postings, counts⟩, failed, h⟩ := bind_ok h
    cases h
    refine announces_reasons sound moment failed rfl (Posting.mail_stops (by simp) ..) ?_ ?_
    · intro p hp
      obtain ⟨o, _, rfl⟩ := List.mem_map.mp hp
      rfl
    · intro r hr
      obtain ⟨p, hp, told⟩ := List.mem_filterMap.mp hr
      obtain ⟨o, ho, rfl⟩ := List.mem_map.mp hp
      rw [MonitoringPayload.report?_named tenant rfl] at told
      cases told
      have moved : o.task.attempt ∈ result.moved := by simpa using (List.mem_filter.mp ho).2
      obtain ⟨u, hu, id, owner, gone⟩ := moved_over sound (failAndAnnounce_told moment failed).1 moved
      refine ⟨u, hu, timeout_fits ?_ id owner gone⟩
      unfold Overdue.eventType
      split <;> rfl

theorem sweepStranded_announces {limit : Nat} {x : SweepEffect} (sound : s.Sound)
    (moment : Instant.inRange now.nanos = true)
    (h : sweepStranded s ids now tenant limit = .ok x) : Announces s x.effect := by
  unfold sweepStranded at h
  split at h
  · cases h
    exact ⟨[], rfl, .silent sound (.same rfl rfl)⟩
  · obtain ⟨⟨result, s₁, postings, counts⟩, failed, h⟩ := bind_ok h
    cases h
    refine announces_reasons sound moment failed (List.append_nil _).symm rfl ?_ ?_
    · intro p hp
      obtain ⟨o, _, rfl⟩ := List.mem_map.mp hp
      rfl
    · intro r hr
      obtain ⟨p, hp, told⟩ := List.mem_filterMap.mp hr
      obtain ⟨t, ht, rfl⟩ := List.mem_map.mp hp
      rw [MonitoringPayload.report?_named tenant (show _ = EventType.name .reassigned from rfl)] at told
      cases told
      have moved : t.task ∈ result.moved := by simpa using (List.mem_filter.mp ht).2
      obtain ⟨u, hu, id, owner, gone⟩ := moved_over sound (failAndAnnounce_told moment failed).1 moved
      refine ⟨u, hu, id, owner, Or.inl ⟨rfl, ?_⟩⟩
      rcases gone with ⟨attempt, _⟩ | later
      · exact Int.le_of_eq attempt.symm
      · exact Int.le_of_lt later

/-- Whatever a sweep does is announced. -/
theorem sweep_announces {kind : Sweep} {limit : Nat} {x : SweepEffect} (sound : s.Sound)
    (moment : Instant.inRange now.nanos = true)
    (h : sweep kind s ids now tenant limit = .ok x) : Announces s x.effect := by
  cases kind with
  | timeout => exact sweepTimeouts_announces sound moment h
  | reassign => exact sweepStranded_announces sound moment h

end WorkflowEngine
