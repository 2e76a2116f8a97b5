import Mathlib.Data.List.Perm.Basic
import WorkflowEngine.Proofs.Store.Batches
import WorkflowEngine.Proofs.System.Telling

/-!
Attempts that end, handled in batches. However the payloads are put together the store comes to be the
same; and if payloads for one attempt do not contradict each other, the same is announced.
-/

namespace WorkflowEngine

open Fallible Store

/-! ### What is announced -/

/-- What a message announces: its payloads under the name of their kind. A notice to a scheduler only
wakes it. -/
def Message.announcements (m : Message) : List (String × ByteArray) :=
  if m.kindName = MessageKind.notifyTaskCreated.name ∨ m.kindName = MessageKind.notifyTaskReleased.name
  then []
  else m.payloads.map (m.kindName, ·)

theorem Message.announcements_ofPayloads {α : Type} [Codec α] {kind : MessageKind}
    {expires persistent : Bool} {tenant : TenantId}
    (created : kind.name ≠ MessageKind.notifyTaskCreated.name)
    (released : kind.name ≠ MessageKind.notifyTaskReleased.name) (payloads : List α) :
    (Message.ofPayloads kind expires persistent tenant payloads).announcements =
      payloads.map fun p => (kind.name, Codec.toBytes p) :=
  (if_neg (not_or.mpr ⟨created, released⟩)).trans List.map_map

/-- Everything that was announced to a queue. -/
def Bus.announced (b : Bus) (q : QueueName) : List (String × ByteArray) :=
  (b.published q).flatMap Message.announcements

namespace Posting

variable {q : QueueName} {tenant : TenantId} {s s' : Store}

/-- What messages announce to a queue. -/
def announced (q : QueueName) (ps : List Posting) : List (String × ByteArray) :=
  (mail q ps).flatMap Message.announcements

/-- One payload for a queue, as another queue sees it. -/
def told {α : Type} [Codec α] (q queue : QueueName) (kind : MessageKind) (p : α) :
    List (String × ByteArray) :=
  if queue.text = q.text then [(kind.name, Codec.toBytes p)] else []

@[simp] theorem announced_append (ps qs : List Posting) :
    announced q (ps ++ qs) = announced q ps ++ announced q qs := by
  rw [announced, mail_append, List.flatMap_append]
  rfl

theorem announced_ofPayloads {α : Type} [Codec α] {queue : QueueName} {kind : MessageKind}
    {expires persistent : Bool} (created : kind.name ≠ MessageKind.notifyTaskCreated.name)
    (released : kind.name ≠ MessageKind.notifyTaskReleased.name) (payloads : List α) :
    announced q (ofPayloads queue (Message.ofPayloads kind expires persistent tenant) payloads) =
      payloads.flatMap (told q queue kind) := by
  by_cases here : queue.text = q.text
  · have one : (told q queue kind : α → _) = fun p => [(kind.name, Codec.toBytes p)] := by
      funext p
      exact if_pos here
    cases payloads with
    | nil => rfl
    | cons p rest =>
      have sent : mail q (ofPayloads queue (Message.ofPayloads kind expires persistent tenant) (p :: rest)) =
          [Message.ofPayloads kind expires persistent tenant (p :: rest)] := by
        simp [mail, ofPayloads, to?, here]
      rw [announced, sent, List.flatMap_singleton, one, ← List.map_eq_flatMap]
      exact Message.announcements_ofPayloads created released (p :: rest)
  · have none : (told q queue kind : α → _) = fun _ => [] := by
      funext p
      exact if_neg here
    rw [announced, mail_ofPayloads_other here, none]
    simp

@[simp] theorem announced_internalEvents (ps : List InternalEventPayload) :
    announced q (internalEvents tenant ps) = ps.flatMap (told q .tasks .internalEvent) :=
  announced_ofPayloads (by decide) (by decide) ps

@[simp] theorem announced_monitoring (ps : List MonitoringPayload) :
    announced q (monitoring tenant ps) = ps.flatMap (told q .readModel .createMonitoringEvent) :=
  announced_ofPayloads (by decide) (by decide) ps

theorem announced_notice (s : Store) {message : List NoticePayload → Message}
    (silent : ∀ ps, (message ps).announcements = []) (payloads : List NoticePayload) :
    announced q (notice s tenant message payloads) = [] := by
  refine List.flatMap_eq_nil_iff.mpr fun m hm => ?_
  obtain ⟨p, hp, kept⟩ := List.mem_filterMap.mp hm
  unfold notice at hp
  split at hp
  · cases hp
  · split at hp
    · rw [List.mem_singleton.mp hp] at kept
      cases kept
    · split at hp
      · cases hp
      · rw [List.mem_singleton.mp hp] at kept
        simp only [to?, Option.ite_none_right_eq_some, Option.some.injEq] at kept
        rw [← kept.2]
        exact silent payloads

@[simp] theorem announced_created (s : Store) (entries : List (String × List StrategyId)) :
    announced q (created s tenant entries) = [] :=
  announced_notice s (fun ps => if_pos (show (Message.created tenant ps).kindName = _ ∨ _ from Or.inl rfl)) _

@[simp] theorem announced_released (s : Store) (tasks : List ReleasedTask) :
    announced q (released s tenant tasks) = [] :=
  announced_notice s (fun ps => if_pos (show _ ∨ (Message.released tenant ps).kindName = _ from Or.inr rfl)) _

/-! ### Orders to stop -/

/-- The order to stop an attempt, and the dispatcher it goes to. -/
def stop? (s : Store) (tenant : TenantId) : Attempt × WorkerId → Option (DispatcherId × StopPayload)
  | (a, id) => do
    let w ← (s.worker? id).filter (·.tenantId == tenant)
    return (w.dispatcherId, { taskId := a.id, workerId := id, retryCount := a.retryCount })

theorem stop?_workers (same : s'.workers = s.workers) (x : Attempt × WorkerId) :
    stop? s' tenant x = stop? s tenant x := by
  simp only [stop?, worker?, same]

def toldStop (q : QueueName) (x : DispatcherId × StopPayload) : List (String × ByteArray) :=
  told q (.dispatcher x.1) .taskCancelled x.2

def toldStops (q : QueueName) (x : DispatcherId × List StopPayload) : List (String × ByteArray) :=
  x.2.flatMap fun p => toldStop q (x.1, p)

theorem announced_stopsOf (x : DispatcherId × List StopPayload) :
    announced q [.ok ⟨.dispatcher x.1, Message.stops tenant x.2⟩] = toldStops q x := by
  obtain ⟨d, ps⟩ := x
  by_cases here : (QueueName.dispatcher d).text = q.text
  · have one : (fun p => toldStop q (d, p)) = fun p => [(MessageKind.taskCancelled.name, Codec.toBytes p)] := by
      funext p
      rw [toldStop, told, if_pos here]
    have sent : mail q [.ok ⟨.dispatcher d, Message.stops tenant ps⟩] = [Message.stops tenant ps] := by
      simp [mail, to?, here]
    rw [announced, sent, List.flatMap_singleton, toldStops, one, ← List.map_eq_flatMap]
    exact Message.announcements_ofPayloads (by decide) (by decide) ps
  · have none : (fun p => toldStop q (d, p)) = fun _ => [] := by
      funext p
      rw [toldStop, told, if_neg here]
    simp [announced, mail, to?, here, toldStops, none]

theorem addStop_told (d : DispatcherId) (p : StopPayload) (acc : List (DispatcherId × List StopPayload)) :
    ((addStop d p acc).flatMap (toldStops q)).Perm (acc.flatMap (toldStops q) ++ toldStop q (d, p)) := by
  induction acc with
  | nil => simp [addStop, toldStops]
  | cons x rest ih =>
    obtain ⟨e, ps⟩ := x
    by_cases same : e = d
    · have added : addStop d p ((e, ps) :: rest) = (e, ps ++ [p]) :: rest := by
        rw [addStop, if_pos (beq_iff_eq.mpr same)]
      rw [added, same]
      simp only [toldStops, List.flatMap_cons, List.flatMap_append, List.flatMap_nil, List.append_nil,
        List.append_assoc]
      exact List.perm_append_comm.append_left _
    · have added : addStop d p ((e, ps) :: rest) = (e, ps) :: addStop d p rest := by
        rw [addStop, if_neg fun h => same (beq_iff_eq.mp h)]
      rw [added, List.flatMap_cons, List.flatMap_cons, List.append_assoc]
      exact ih.append_left _

/-- However the orders are put together by dispatchers, each of them is told. -/
theorem announced_stops (s : Store) (attempts : List (Attempt × WorkerId)) :
    (announced q (stops s tenant attempts)).Perm
      ((attempts.filterMap (stop? s tenant)).flatMap (toldStop q)) := by
  have listed : ∀ groups : List (DispatcherId × List StopPayload),
      announced q (groups.map fun x => .ok ⟨.dispatcher x.1, Message.stops tenant x.2⟩) =
        groups.flatMap (toldStops q) := by
    intro groups
    induction groups with
    | nil => rfl
    | cons x rest ih =>
      rw [List.map_cons, ← List.singleton_append, announced_append, announced_stopsOf, ih]
      rfl
  -- Orders are gathered by dispatcher: the accumulator holds those that were gathered before.
  have gathered : ∀ (routed : List (DispatcherId × StopPayload)) acc,
      ((routed.foldl (fun acc x => addStop x.1 x.2 acc) acc).flatMap (toldStops q)).Perm
        (acc.flatMap (toldStops q) ++ routed.flatMap (toldStop q)) := by
    intro routed
    induction routed with
    | nil => simp
    | cons x rest ih =>
      intro acc
      rw [List.foldl_cons, List.flatMap_cons, ← List.append_assoc]
      exact (ih _).trans ((addStop_told x.1 x.2 acc).append_right _)
  have all := gathered (attempts.filterMap (stop? s tenant)) []
  rw [← listed] at all
  exact all

theorem announced_stopsFor {α : Type} (s : Store) (running : α → Option (Attempt × WorkerId))
    (l : List α) : (announced q (stops s tenant (l.filterMap running))).Perm
      (l.flatMap fun x => ((running x).bind (stop? s tenant)).toList.flatMap (toldStop q)) := by
  refine (announced_stops s _).trans (.of_eq ?_)
  rw [List.filterMap_filterMap, List.filterMap_eq_flatMap_toList, List.flatMap_assoc]

end Posting

/-! ### What payloads say of attempts -/

section

variable {α β : Type} {key : α → Attempt} {say : α → β} {said : Attempt → β} {l : List α}

theorem lookup_said (agree : ∀ x ∈ l, say x = said (key x)) {a : Attempt} (listed : a ∈ l.map key)
    (default : β) : ((l.findRev? (key · == a)).map say).getD default = said a := by
  obtain ⟨x, hx, rfl⟩ := List.mem_map.mp listed
  -- The last payload for the attempt need not be `x`, but it says what `x` says.
  cases found : l.findRev? (key · == key x) with
  | none =>
    rw [List.findRev?_eq_find?_reverse, List.find?_eq_none] at found
    exact absurd (beq_iff_eq.mpr rfl) (found x (List.mem_reverse.mpr hx))
  | some y =>
    rw [List.findRev?_eq_find?_reverse] at found
    have same : key y = key x := by simpa using List.find?_some found
    have member := List.mem_reverse.mp (List.mem_of_find?_eq_some found)
    rw [Option.map_some, Option.getD_some, agree y member, same]

theorem exists_said (default : β) (agree : ∀ x ∈ l, ∀ y ∈ l, key x = key y → say x = say y) :
    ∃ said : Attempt → β, ∀ x ∈ l, say x = said (key x) := by
  refine ⟨fun a => ((l.find? (key · == a)).map say).getD default, fun x hx => ?_⟩
  cases found : l.find? (key · == key x) with
  | none => exact absurd (beq_iff_eq.mpr rfl) (List.find?_eq_none.mp found x hx)
  | some y =>
    have same : key y = key x := by simpa using List.find?_some found
    simp only [found]
    exact agree x hx y (List.mem_of_find?_eq_some found) same.symm

end

/-! ### Completion -/

namespace Request

variable {q : QueueName} {s : Store} {ids : IdSource} {now : Instant} {tenant : TenantId}

/-- What is told of a completed attempt. -/
def completedNews (q : QueueName) (now : Instant) (output : Attempt → Json) (t : ReleasedTask) :
    List (String × ByteArray) :=
  Posting.told q .tasks .internalEvent
      (InternalEventPayload.completed now t.externalId ⟨t.stepReadableId, output t.attempt⟩) ++
    Posting.told q .readModel .createMonitoringEvent
      { MonitoringPayload.ofAttempt now t.attempt .finished with
        workerId := t.workerId, payload := (output t.attempt).text }

/-- The output that payloads report of an attempt. Where several do, the last one is heard. -/
def lastOutput (ps : List CompletedPayload) (a : Attempt) : Json :=
  ((ps.findRev? (·.attempt == a)).map (·.output)).getD .null

theorem serveComplete_news (q : QueueName) (s : Store) (ids : IdSource) (now : Instant)
    (tenant : TenantId) (ps : List CompletedPayload) :
    (Posting.announced q (serveComplete s ids now tenant ps).postings).Perm
      ((s.complete tenant (ps.map (·.attempt))).1.flatMap (completedNews q now (lastOutput ps))) := by
  simp only [serveComplete, Posting.announced_append, Posting.announced_internalEvents,
    Posting.announced_monitoring, Posting.announced_released, List.append_nil, List.flatMap_map]
  exact List.flatMap_append_perm _ _ _

theorem serveComplete_announced {ps : List CompletedPayload} {output : Attempt → Json}
    (agree : ∀ p ∈ ps, p.output = output p.attempt) :
    (Posting.announced q (serveComplete s ids now tenant ps).postings).Perm
      ((s.complete tenant (ps.map (·.attempt))).1.flatMap (completedNews q now output)) := by
  refine (serveComplete_news q s ids now tenant ps).trans (.of_eq (List.flatMap_congr fun t ht => ?_))
  rw [complete_eq] at ht
  have looked : lastOutput ps t.attempt = output t.attempt :=
    lookup_said agree (endEach_attempt (fun s a => s.completeOne_ending tenant a) ht) .null
  rw [completedNews, completedNews, looked]

/-- Two payloads that complete one attempt are heard differently together and apart. Only the first of
them completes it; but together the output of the last one is announced. -/
theorem serveComplete_contradicted {p p' : CompletedPayload} (same : p'.attempt = p.attempt)
    (q : QueueName) (s : Store) (ids ids₁ ids₂ : IdSource) (now : Instant) (tenant : TenantId) :
    let released := (s.complete tenant [p.attempt]).1
    let first := serveComplete s ids₁ now tenant [p]
    (Posting.announced q (serveComplete s ids now tenant [p, p']).postings).Perm
        (released.flatMap (completedNews q now fun _ => p'.output)) ∧
      (Posting.announced q first.postings).Perm
        (released.flatMap (completedNews q now fun _ => p.output)) ∧
      Posting.announced q (serveComplete first.store ids₂ now tenant [p']).postings = [] := by
  intro released first
  obtain ⟨once, nothing⟩ := s.complete_again tenant p.attempt
  refine ⟨?_, serveComplete_announced fun x hx => by rw [List.mem_singleton.mp hx], ?_⟩
  · -- One attempt ends, and its output is looked up behind both payloads.
    refine (serveComplete_news q s ids now tenant [p, p']).trans (.of_eq ?_)
    rw [List.map_cons, List.map_singleton, same, once]
    refine List.flatMap_congr fun t ht => ?_
    rw [complete_eq] at ht
    have about := endEach_attempt (fun s a => s.completeOne_ending tenant a) ht
    have last : lastOutput [p, p'] t.attempt = p'.output := by
      rw [List.mem_singleton.mp about, lastOutput, List.findRev?_eq_find?_reverse]
      simp [same]
    rw [completedNews, completedNews, last]
  · have later := serveComplete_news q first.store ids₂ now tenant [p']
    have stored : first.store = (s.complete tenant [p.attempt]).2 := rfl
    rw [List.map_singleton, same, stored, nothing] at later
    exact List.perm_nil.mp later

/-! ### Failure -/

def failedNews (q : QueueName) (now : Instant) (message : Attempt → String) (t : ReleasedTask) :
    List (String × ByteArray) :=
  Posting.told q .tasks .internalEvent
      (InternalEventPayload.failed now t.externalId t.stepReadableId (message t.attempt)) ++
    Posting.told q .readModel .createMonitoringEvent
      { MonitoringPayload.ofAttempt now t.attempt .failed with
        workerId := t.workerId, payload := message t.attempt, message := some (message t.attempt) }

def retriedNews (q : QueueName) (now : Instant) (message : Attempt → String) (t : RetriedTask) :
    List (String × ByteArray) :=
  Posting.told q .readModel .createMonitoringEvent
    { MonitoringPayload.ofAttempt now ⟨t.id, t.retryCount⟩ .queued with
      message := some ("retrying after failure: " ++ message t.failedAttempt) }

theorem failAndAnnounce_announced {failures : List Failure} {message : Attempt → String}
    {result : FailureResult} {s' : Store} {postings : List Posting} {counts : List (Counter × Nat)}
    (agree : ∀ f ∈ failures, f.message = message f.task)
    (h : failAndAnnounce s now tenant failures = .ok (result, s', postings, counts)) :
    (Posting.announced q postings).Perm
      (result.released.flatMap (failedNews q now message) ++
        result.retried.flatMap (retriedNews q now message)) := by
  obtain ⟨⟨r, s₁⟩, failed, h⟩ := bind_ok h
  cases h
  obtain ⟨released, retried⟩ := fail_attempts failed
  have looked : ∀ a, (∃ f ∈ failures, f.task = a) →
      ((failures.findRev? (·.task == a)).map (·.message)).getD "" = message a := by
    intro a listed
    exact lookup_said agree (List.mem_map.mpr listed) ""
  simp only [Posting.announced_append, Posting.announced_internalEvents,
    Posting.announced_monitoring, Posting.announced_released, Posting.announced_created,
    List.append_nil, List.flatMap_append, List.flatMap_map, ← List.append_assoc]
  refine List.Perm.append ((List.flatMap_append_perm _ _ _).trans (.of_eq ?_)) (.of_eq ?_)
  · refine List.flatMap_congr fun t ht => ?_
    rw [looked _ (released t ht)]
    rfl
  · refine List.flatMap_congr fun t ht => ?_
    rw [looked _ (retried t ht)]
    rfl

def failures (ps : List FailedPayload) : List Failure :=
  ps.map fun p => ⟨p.attempt, p.isAppError, p.errorMessage⟩

theorem serveFail_served (ids : IdSource) {ps : List FailedPayload} {result : FailureResult} {s' : Store}
    (failed : s.fail now tenant (failures ps) = .ok (result, s')) :
    ∃ x, serveFail s ids now tenant ps = .ok x ∧ x.store = s' ∧ ∀ (message : Attempt → String) q,
      (∀ p ∈ ps, p.errorMessage = message p.attempt) →
      (Posting.announced q x.postings).Perm (result.released.flatMap (failedNews q now message) ++
        result.retried.flatMap (retriedNews q now message)) := by
  obtain ⟨postings, counts, announced⟩ : ∃ postings counts,
      failAndAnnounce s now tenant (failures ps) = .ok (result, s', postings, counts) := by
    rw [failAndAnnounce, failed]
    exact ⟨_, _, rfl⟩
  refine ⟨{ store := s', ids, postings, counts }, ?_, rfl, ?_⟩
  · change (failAndAnnounce s now tenant (failures ps) >>= _) = _
    rw [announced]
    rfl
  · intro message q said
    refine failAndAnnounce_announced (fun f hf => ?_) announced
    obtain ⟨p, hp, rfl⟩ := List.mem_map.mp hf
    exact said p hp

theorem serveFail_error {ps : List FailedPayload} {f : Fault} :
    serveFail s ids now tenant ps = .error f ↔ s.fail now tenant (failures ps) = .error f := by
  change (failAndAnnounce s now tenant (failures ps) >>= _) = _ ↔ _
  rw [failAndAnnounce]
  cases s.fail now tenant (failures ps) <;> exact ⟨fun h => by cases h <;> rfl, fun h => by cases h <;> rfl⟩

@[simp] theorem failures_append (ps ps' : List FailedPayload) :
    failures (ps ++ ps') = failures ps ++ failures ps' :=
  List.map_append

/-! ### Cancellation -/

/-- The order to stop a cancelled attempt, if it runs and its dispatcher shall be told. -/
def stopOrder (s : Store) (tenant : TenantId) (order : Attempt → Option CancelledPayload)
    (t : ReleasedTask) : Option (DispatcherId × StopPayload) := do
  let o ← order t.attempt
  guard o.shouldNotify
  Posting.stop? s tenant (t.attempt, ← t.workerId)

def cancelledNews (q : QueueName) (s : Store) (now : Instant) (tenant : TenantId)
    (order : Attempt → Option CancelledPayload) (t : ReleasedTask) : List (String × ByteArray) :=
  (stopOrder s tenant order t).toList.flatMap (Posting.toldStop q) ++
    (Posting.told q .tasks .internalEvent
        (InternalEventPayload.cancelled now t.externalId t.stepReadableId) ++
      Posting.told q .readModel .createMonitoringEvent
        { MonitoringPayload.ofAttempt now t.attempt
            (((order t.attempt).map (·.eventType)).getD .cancelled) with
          workerId := t.workerId, message := (order t.attempt).bind (·.eventMessage) })

theorem serveCancel_announced {s₀ : Store} {ps : List CancelledPayload}
    {order : Attempt → Option CancelledPayload} (workers : s.workers = s₀.workers)
    (agree : ∀ p ∈ ps, some p = order p.attempt) :
    (Posting.announced q (serveCancel s ids now tenant ps).postings).Perm
      ((s.cancel tenant (ps.map (·.attempt))).1.flatMap (cancelledNews q s₀ now tenant order)) := by
  have looked : ∀ t ∈ (s.cancel tenant (ps.map (·.attempt))).1,
      ps.findRev? (·.attempt == t.attempt) = order t.attempt := by
    intro t ht
    rw [cancel_eq] at ht
    have said := lookup_said agree (endEach_attempt (fun s a => s.cancelOne_ending tenant a) ht) none
    rw [← said]
    cases ps.findRev? (·.attempt == t.attempt) <;> rfl
  simp only [serveCancel, Posting.announced_append, Posting.announced_internalEvents,
    Posting.announced_monitoring, Posting.announced_released, List.append_nil, List.flatMap_map,
    List.append_assoc]
  refine ((Posting.announced_stopsFor _ _ _).append (List.flatMap_append_perm _ _ _)).trans
    ((List.flatMap_append_perm _ _ _).trans (.of_eq (List.flatMap_congr fun t ht => ?_)))
  have same := (s.cancel_workers tenant (ps.map (·.attempt))).trans workers
  rw [looked t ht, funext (Posting.stop?_workers same), cancelledNews, stopOrder]
  simp only [Option.bind_eq_bind, Option.bind_assoc, Option.pure_def, Option.bind_some]

/-! ### Cuts -/

/-- Payloads for one attempt say the same of it. -/
def Agrees : Request → Prop
  | complete ps => ∀ p ∈ ps, ∀ p' ∈ ps, p.attempt = p'.attempt → p.output = p'.output
  | fail ps => ∀ p ∈ ps, ∀ p' ∈ ps, p.attempt = p'.attempt → p.errorMessage = p'.errorMessage
  | cancel ps => ∀ p ∈ ps, ∀ p' ∈ ps, p.attempt = p'.attempt → p = p'
  | userEvents _ | trigger _ | internalEvents _ => True

/-- A request to end attempts, cut in two. -/
inductive Cut : Request → Request → Request → Prop where
  | complete (ps ps' : List CompletedPayload) : Cut (.complete (ps ++ ps')) (.complete ps) (.complete ps')
  | fail (ps ps' : List FailedPayload) : Cut (.fail (ps ++ ps')) (.fail ps) (.fail ps')
  | cancel (ps ps' : List CancelledPayload) : Cut (.cancel (ps ++ ps')) (.cancel ps) (.cancel ps')

variable {r r₁ r₂ : Request} {x : Effect}

theorem Cut.agrees (cut : Cut r r₁ r₂) (agrees : r.Agrees) : r₁.Agrees ∧ r₂.Agrees := by
  cases cut <;> exact ⟨
    fun p hp p' hp' => agrees p (List.mem_append_left _ hp) p' (List.mem_append_left _ hp'),
    fun p hp p' hp' => agrees p (List.mem_append_right _ hp) p' (List.mem_append_right _ hp')⟩

/-- What one effect announces is what two others announce, one after the other. -/
def Both (x x₁ x₂ : Effect) : Prop :=
  ∀ q, (Posting.announced q x.postings).Perm
    (Posting.announced q x₁.postings ++ Posting.announced q x₂.postings)

theorem serveComplete_cut {ids₁ ids₂ : IdSource} {ps ps' : List CompletedPayload}
    (agrees : Agrees (.complete (ps ++ ps'))) :
    Both (serveComplete s ids now tenant (ps ++ ps')) (serveComplete s ids₁ now tenant ps)
      (serveComplete (serveComplete s ids₁ now tenant ps).store ids₂ now tenant ps') := by
  obtain ⟨output, said⟩ := exists_said .null agrees
  intro q
  refine (serveComplete_announced said).trans ?_
  rw [List.map_append, complete_append, List.flatMap_append]
  exact ((serveComplete_announced fun p hp => said p (List.mem_append_left _ hp)).append
    (serveComplete_announced fun p hp => said p (List.mem_append_right _ hp))).symm

theorem serveCancel_cut {ids₁ ids₂ : IdSource} {ps ps' : List CancelledPayload}
    (agrees : Agrees (.cancel (ps ++ ps'))) :
    Both (serveCancel s ids now tenant (ps ++ ps')) (serveCancel s ids₁ now tenant ps)
      (serveCancel (serveCancel s ids₁ now tenant ps).store ids₂ now tenant ps') := by
  obtain ⟨order, said⟩ := exists_said none
    fun p hp p' hp' same => congrArg some (agrees p hp p' hp' same)
  intro q
  refine (serveCancel_announced rfl said).trans ?_
  rw [List.map_append, cancel_append, List.flatMap_append]
  exact ((serveCancel_announced rfl fun p hp => said p (List.mem_append_left _ hp)).append
    (serveCancel_announced (s.cancel_workers tenant (ps.map (·.attempt))) fun p hp =>
      said p (List.mem_append_right _ hp))).symm

theorem serveFail_cut {ids₁ ids₂ : IdSource} {ps ps' : List FailedPayload}
    (served : serveFail s ids now tenant (ps ++ ps') = .ok x) :
    ∃ x₁ x₂, serveFail s ids₁ now tenant ps = .ok x₁ ∧
      serveFail x₁.store ids₂ now tenant ps' = .ok x₂ ∧ x₂.store = x.store ∧
        (Agrees (.fail (ps ++ ps')) → Both x x₁ x₂) := by
  have whole : ∃ result s', s.fail now tenant (failures (ps ++ ps')) = .ok (result, s') := by
    cases failed : s.fail now tenant (failures (ps ++ ps')) with
    | ok p => exact ⟨p.1, p.2, rfl⟩
    | error f =>
      rw [serveFail_error.mpr failed] at served
      cases served
  obtain ⟨result, s', failed⟩ := whole
  obtain ⟨y, servedY, stored, told⟩ := serveFail_served ids failed
  obtain rfl : y = x := Except.ok.inj (servedY.symm.trans served)
  rw [failures_append, fail_append] at failed
  obtain ⟨⟨first, s₁⟩, failed₁, failed⟩ := bind_ok failed
  obtain ⟨⟨rest, s₂⟩, failed₂, failed⟩ := bind_ok failed
  cases failed
  obtain ⟨x₁, served₁, rfl, told₁⟩ := serveFail_served ids₁ failed₁
  obtain ⟨x₂, served₂, rfl, told₂⟩ := serveFail_served ids₂ failed₂
  refine ⟨x₁, x₂, served₁, served₂, stored.symm, fun agrees q => ?_⟩
  obtain ⟨message, said⟩ := exists_said "" agrees
  have parts := (told₁ message q fun p hp => said p (List.mem_append_left _ hp)).append
    (told₂ message q fun p hp => said p (List.mem_append_right _ hp))
  refine (told message q said).trans (.trans ?_ parts.symm)
  -- the released of both parts stand before the retried of both
  simp only [FailureResult.append, List.flatMap_append, List.append_assoc]
  refine List.Perm.append_left _ ?_
  simp only [← List.append_assoc]
  exact List.perm_append_comm.append_right _

/-- A batch can be served in two parts, to the same end. -/
theorem serve_cut (cut : Cut r r₁ r₂) (ids₁ ids₂ : IdSource)
    (served : serve s ids now tenant r = .ok x) :
    ∃ x₁ x₂, serve s ids₁ now tenant r₁ = .ok x₁ ∧ serve x₁.store ids₂ now tenant r₂ = .ok x₂ ∧
      x₂.store = x.store ∧ (r.Agrees → Both x x₁ x₂) := by
  cases cut with
  | complete ps ps' =>
    cases served
    refine ⟨_, _, rfl, rfl, ?_, serveComplete_cut⟩
    change ((s.complete tenant (ps.map (·.attempt))).2.complete tenant (ps'.map (·.attempt))).2 =
      (s.complete tenant ((ps ++ ps').map (·.attempt))).2
    rw [List.map_append, complete_append]
  | cancel ps ps' =>
    cases served
    refine ⟨_, _, rfl, rfl, ?_, serveCancel_cut⟩
    change ((s.cancel tenant (ps.map (·.attempt))).2.cancel tenant (ps'.map (·.attempt))).2 =
      (s.cancel tenant ((ps ++ ps').map (·.attempt))).2
    rw [List.map_append, cancel_append]
  | fail ps ps' => exact serveFail_cut served

/-- What is in the way of a batch is in the way of one of its parts. -/
theorem serve_cut_error {f : Fault} (cut : Cut r r₁ r₂) (ids₁ ids₂ : IdSource)
    (refused : serve s ids now tenant r = .error f) :
    (∃ text, f = .panic text) ∧ (serve s ids₁ now tenant r₁ = .error f ∨
      ∃ x₁, serve s ids₁ now tenant r₁ = .ok x₁ ∧ serve x₁.store ids₂ now tenant r₂ = .error f) := by
  cases cut with
  | complete | cancel => cases refused
  | fail ps ps' =>
    have failed := serveFail_error.mp refused
    refine ⟨fail_error failed, ?_⟩
    rw [failures_append, fail_append] at failed
    rcases bind_error failed with first | ⟨⟨result, s₁⟩, first, failed⟩
    · exact Or.inl (serveFail_error.mpr first)
    · obtain ⟨x₁, served₁, rfl, -⟩ := serveFail_served ids₁ first
      rcases bind_error failed with rest | ⟨_, _, done⟩
      · exact Or.inr ⟨x₁, served₁, serveFail_error.mpr rest⟩
      · cases done

end Request

end WorkflowEngine
