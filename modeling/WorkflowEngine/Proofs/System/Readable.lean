import WorkflowEngine.Effect.Request
import WorkflowEngine.Effect.Sweep
import WorkflowEngine.Proofs.Bus.Readable
import WorkflowEngine.Proofs.Fallible

/-!
What is published can be read, up to the nesting that readers accept. Serving a request puts values
that were read into new payloads: an output into an announcement, the outputs of parents into the input
of a step. Such a payload is nested deeper than the one the value came in, and past the limit it is
dropped by its consumer, although nothing refused it before.
-/

namespace WorkflowEngine

open Fallible

/-! ### Who reads what -/

/-- The type that those who listen to a queue read the payloads of a kind as. -/
def MessageKind.payloadType? : QueueName → MessageKind → Option PayloadType
  | .tasks, .taskCompleted => some .completed
  | .tasks, .taskFailed => some .failed
  | .tasks, .taskCancelled => some .cancelled
  | .tasks, .userEvent => some .userEvent
  | .tasks, .internalEvent => some .internalEvent
  | .tasks, .taskTrigger => some .trigger
  | .readModel, .createdTask => some .task
  | .readModel, .createdDag => some .dag
  | .readModel, .createMonitoringEvent => some .monitoring
  | .dispatcher _, .taskCancelled => some .stop
  | .scheduler _, .notifyTaskCreated => some .notice
  | .scheduler _, .notifyTaskReleased => some .notice
  | _, _ => none

/-- The payloads of a message are values of the type that its consumers read. -/
structure Post.Carries (post : Post) (type : PayloadType) (ps : List type.Value) : Prop where
  consumed : ∃ kind : MessageKind,
    post.message.kindName = kind.name ∧ kind.payloadType? post.queue = some type
  payloads : post.message.payloads = ps.map Codec.toBytes

section Carried

variable {s s' : Store} {tenant : TenantId} {now : Instant} {ids : IdSource} {ps qs : List Posting}

/-- How postings come about: values are sent to the queue of those who read them, a notice to the scheduler
of the tenant and orders to the dispatchers, one after the other. -/
inductive Posting.Made (tenant : TenantId) : List Posting → Prop where
  | nil : Made tenant []
  | append {ps qs : List Posting} (first : Made tenant ps) (second : Made tenant qs) :
    Made tenant (ps ++ qs)
  | ofPayloads {type : PayloadType} {kind : MessageKind} {queue : QueueName} {expires persistent : Bool}
    (known : kind.payloadType? queue = some type) (values : List type.Value) :
    Made tenant (Posting.ofPayloads queue (Message.ofPayloads kind expires persistent tenant) values)
  | notice {kind : MessageKind} {expires persistent : Bool}
    (known : ∀ partition, kind.payloadType? (.scheduler partition) = some .notice) (s : Store)
    (notices : List NoticePayload) :
    Made tenant (Posting.notice s tenant (Message.ofPayloads kind expires persistent tenant) notices)
  | stops (s : Store) (attempts : List (Attempt × WorkerId)) : Made tenant (Posting.stops s tenant attempts)

/-- The message was made of values of the type that is read where it goes. -/
def Post.MadeOf (tenant : TenantId) (post : Post) : Prop :=
  ∃ (type : PayloadType) (kind : MessageKind) (expires persistent : Bool) (values : List type.Value),
    kind.payloadType? post.queue = some type ∧
      post.message = Message.ofPayloads kind expires persistent tenant values

theorem Posting.Made.madeOf (made : Posting.Made tenant ps) :
    ∀ post, .ok post ∈ ps → post.MadeOf tenant := by
  induction made with
  | nil => exact fun _ h => absurd h List.not_mem_nil
  | append _ _ first second => exact fun post h => (List.mem_append.mp h).elim (first post) (second post)
  | ofPayloads known values =>
    cases values with
    | nil => exact fun _ h => absurd h List.not_mem_nil
    | cons p rest =>
      intro post h
      cases List.mem_singleton.mp h
      exact ⟨_, _, _, _, p :: rest, known, rfl⟩
  | notice known s notices =>
    unfold Posting.notice
    split
    · exact fun _ h => absurd h List.not_mem_nil
    · split
      · exact fun post h => nomatch List.mem_singleton.mp h
      · split
        · exact fun _ h => absurd h List.not_mem_nil
        · intro post h
          cases List.mem_singleton.mp h
          exact ⟨.notice, _, _, _, notices, known _, rfl⟩
  | stops s attempts =>
    intro post h
    obtain ⟨⟨dispatcher, stops⟩, -, same⟩ := List.mem_map.mp h
    cases same
    exact ⟨.stop, .taskCancelled, _, _, stops, rfl, rfl⟩

/-- Every message carries values that its consumers know. -/
def Carried (ps : List Posting) : Prop :=
  ∀ post, .ok post ∈ ps → ∃ type values, post.Carries type values

theorem carries_ofPayloads {type : PayloadType} {kind : MessageKind} {queue : QueueName}
    {expires persistent : Bool} (known : kind.payloadType? queue = some type) (values : List type.Value) :
    (Post.mk queue (Message.ofPayloads kind expires persistent tenant values)).Carries type values :=
  ⟨⟨kind, rfl, known⟩, rfl⟩

theorem Posting.Made.carried (made : Posting.Made tenant ps) : Carried ps := by
  rintro ⟨queue, message⟩ h
  obtain ⟨type, kind, _, _, values, known, rfl⟩ := made.madeOf _ h
  exact ⟨type, values, carries_ofPayloads known values⟩

theorem made_internalEvents (events : List InternalEventPayload) :
    Posting.Made tenant (Posting.internalEvents tenant events) :=
  @Posting.Made.ofPayloads _ .internalEvent .internalEvent _ _ _ rfl events

theorem made_monitoring (events : List MonitoringPayload) :
    Posting.Made tenant (Posting.monitoring tenant events) :=
  @Posting.Made.ofPayloads _ .monitoring .createMonitoringEvent _ _ _ rfl events

theorem made_created (s : Store) (entries : List (String × List StrategyId)) :
    Posting.Made tenant (Posting.created s tenant entries) :=
  .notice (fun _ => rfl) s _

theorem made_released (s : Store) (tasks : List ReleasedTask) :
    Posting.Made tenant (Posting.released s tenant tasks) :=
  .notice (fun _ => rfl) s _

theorem made_ofCreation (c : Creation) :
    Posting.Made tenant (Request.ofCreation c now tenant).postings := by
  have tasks : Posting.Made tenant (Posting.ofPayloads .readModel (Message.createdTasks tenant) c.tasks) :=
    @Posting.Made.ofPayloads _ .task .createdTask _ _ _ rfl c.tasks
  have dags : Posting.Made tenant (Posting.ofPayloads .readModel (Message.createdDags tenant) c.dags) :=
    @Posting.Made.ofPayloads _ .dag .createdDag _ _ _ rfl c.dags
  exact (((tasks.append dags).append (made_created _ _)).append (made_internalEvents _)).append
    (made_monitoring _)

theorem failAndAnnounce_made {failures : List Failure} {result : FailureResult}
    {counts : List (Counter × Nat)}
    (done : failAndAnnounce s now tenant failures = .ok (result, s', ps, counts)) :
    Posting.Made tenant ps := by
  obtain ⟨_, _, done⟩ := bind_ok done
  cases done
  exact (((made_internalEvents _).append (made_monitoring _)).append (made_released _ _)).append
    (made_created _ _)

theorem serve_made {r : Request} {x : Effect} (served : Request.serve s ids now tenant r = .ok x) :
    Posting.Made tenant x.postings := by
  cases r with
  | complete ps =>
    cases served
    exact ((made_internalEvents _).append (made_monitoring _)).append (made_released _ _)
  | cancel ps =>
    cases served
    exact (((Posting.Made.stops _ _).append (made_internalEvents _)).append (made_monitoring _)).append
      (made_released _ _)
  | fail ps =>
    obtain ⟨_, failed, served⟩ := bind_ok served
    cases served
    exact failAndAnnounce_made failed
  | userEvents ps =>
    obtain ⟨c, _, served⟩ := bind_ok served
    cases served
    exact made_ofCreation c
  | trigger ps =>
    obtain ⟨c, _, served⟩ := bind_ok served
    cases served
    exact made_ofCreation c
  | internalEvents ps =>
    obtain ⟨c, _, served⟩ := bind_ok served
    cases served
    exact made_ofCreation c

theorem sweep_made {kind : Sweep} {limit : Nat} {x : SweepEffect}
    (swept : sweep kind s ids now tenant limit = .ok x) : Posting.Made tenant x.effect.postings := by
  cases kind with
  | timeout =>
    change sweepTimeouts s ids now tenant limit = _ at swept
    unfold sweepTimeouts at swept
    split at swept
    · cases swept
      exact .nil
    · obtain ⟨_, failed, swept⟩ := bind_ok swept
      cases swept
      exact ((failAndAnnounce_made failed).append (made_monitoring _)).append (.stops _ _)
  | reassign =>
    change sweepStranded s ids now tenant limit = _ at swept
    unfold sweepStranded at swept
    split at swept
    · cases swept
      exact .nil
    · obtain ⟨_, failed, swept⟩ := bind_ok swept
      cases swept
      exact (failAndAnnounce_made failed).append (made_monitoring _)

theorem serve_carried {r : Request} {x : Effect} (served : Request.serve s ids now tenant r = .ok x) :
    Carried x.postings :=
  (serve_made served).carried

end Carried

/-! ### Announcements of outputs -/

section Outputs

variable {p : CompletedPayload} {now : Instant} {task : ExternalId} {step : String} {output : Json}

/-- The announcement of an output is nested in two containers more than the output. -/
theorem InternalEventPayload.depth_completed {n : Nat} :
    (encode (completed now task ⟨step, output⟩)).depth ≤ n + 2 ↔ output.depth ≤ n := by
  have body : (CompletedData.toJson ⟨step, output⟩).depth ≤ n + 1 ↔ output.depth ≤ n :=
    (Json.depth_ofMembers_le_iff (by simp)).trans (by simp [Json.depth])
  rw [← body]
  exact (Json.depth_ofMembers_le_iff (by simp)).trans (by simp [completed, Json.depth])

theorem InternalEventPayload.completed_fits (moment : now.Fits) (valid : output.Valid) :
    (completed now task ⟨step, output⟩).Fits where
  timestamp := moment
  data := Json.valid_ofMembers (by simp [Json.valid_str, valid])

theorem InternalEventPayload.completed_plain (plain : output.DoubleFree) :
    (completed now task ⟨step, output⟩).data.DoubleFree :=
  Json.doubleFree_ofMembers (by simp [Json.doubleFree_str, plain])

/-- An output that is nested in 126 containers is accepted, and what is announced of it is not read. -/
theorem CompletedPayload.unread_announcement (fits : p.Fits) (plain : p.output.DoubleFree)
    (moment : now.Fits) (deep : p.output.depth = 126) :
    Codec.ofBytes? (Codec.toBytes p) = some p ∧
      (Codec.ofBytes? (Codec.toBytes (InternalEventPayload.completed now task ⟨step, p.output⟩)) :
        Option InternalEventPayload) = none := by
  constructor
  · have shallow : (encode p).depth ≤ 127 :=
      PayloadType.completed.depth_encode (Nat.le_of_eq deep)
    exact (PayloadType.completed.ofBytes?_toBytes fits plain).trans (if_pos shallow)
  · have past : ¬(encode (InternalEventPayload.completed now task ⟨step, p.output⟩)).depth ≤ 127 := by
      rw [InternalEventPayload.depth_completed, deep]
      decide
    exact (PayloadType.internalEvent.ofBytes?_toBytes (InternalEventPayload.completed_fits moment fits.output)
      (InternalEventPayload.completed_plain plain)).trans (if_neg past)

end Outputs

/-! ### Everything that is published -/

/-- Whatever a request comes to, each message carries values of the type its consumers read; and of such
values without doubles the consumers read back those nested in 127 containers at most, in order. -/
theorem Request.published_read_back {s : Store} {ids : IdSource} {now : Instant} {tenant : TenantId}
    {r : Request} {x : Effect} {post : Post} (served : Request.serve s ids now tenant r = .ok x)
    (sent : .ok post ∈ x.postings) :
    (∃ type values, post.Carries type values) ∧
      ∀ type values, post.Carries type values →
        (∀ p ∈ values, type.Fits p ∧ (type.free p).DoubleFree) →
          decodePayloads type.Value post.message.payloads =
            values.filter fun p => decide ((encode p).depth ≤ 127) := by
  refine ⟨serve_carried served post sent, fun type values carries sound => ?_⟩
  rw [carries.payloads]
  exact type.decodePayloads_toBytes (fun p member => (sound p member).1) fun p member => (sound p member).2

/-- A list in a list, and so on. -/
def Json.nested : Nat → Json
  | 0 => .arr []
  | n + 1 => .arr [nested n]

theorem Json.nested_sound (n : Nat) : (nested n).Valid ∧ (nested n).DoubleFree ∧ (nested n).depth = n + 1 := by
  induction n with
  | zero => exact ⟨⟨trivial, trivial⟩, ⟨fun _ => nofun, trivial⟩, rfl⟩
  | succ n ih =>
    obtain ⟨valid, plain, deep⟩ := ih
    exact ⟨⟨trivial, valid, trivial⟩, ⟨fun _ => nofun, plain, trivial⟩,
      congrArg (· + 1) ((Nat.max_zero _).trans deep)⟩

namespace Request

/-- Two tasks at work. -/
def twoRunning : Store where
  tasks := [{ (default : Task) with id := 1, tenantId := ⟨3⟩, state := .running },
    { (default : Task) with id := 2, tenantId := ⟨3⟩, state := .running }]

/-- The outputs of both, the second one nested as deep as it may be. -/
def twoOutputs : List CompletedPayload := [⟨1, 0, .nested 124⟩, ⟨2, 0, .nested 125⟩]

/-- What is announced of an output. -/
def announcementOf (p : CompletedPayload) : InternalEventPayload :=
  .completed ⟨0⟩ .nil ⟨"", p.output⟩

theorem twoOutputs_read_back : ∃ post : Post,
    .ok post ∈ (serveComplete twoRunning {} ⟨0⟩ ⟨3⟩ twoOutputs).postings ∧
      post.Carries .internalEvent (twoOutputs.map announcementOf) ∧
        decodePayloads InternalEventPayload post.message.payloads = [announcementOf ⟨1, 0, .nested 124⟩] := by
  let post : Post := ⟨.tasks, Message.internalEvents ⟨3⟩ (twoOutputs.map announcementOf)⟩
  have sent : .ok post ∈ (serveComplete twoRunning {} ⟨0⟩ ⟨3⟩ twoOutputs).postings :=
    List.mem_append_left _ (List.mem_append_left _ (List.mem_singleton_self _))
  have carries : post.Carries .internalEvent (twoOutputs.map announcementOf) :=
    @carries_ofPayloads _ .internalEvent _ _ _ _ rfl _
  have sound : ∀ p ∈ twoOutputs.map announcementOf, p.Fits ∧ p.data.DoubleFree := by
    intro p member
    obtain ⟨c, listed, rfl⟩ := List.mem_map.mp member
    obtain ⟨valid, plain⟩ : c.output.Valid ∧ c.output.DoubleFree := by
      rcases List.mem_pair.mp listed with rfl | rfl
      · exact ⟨(Json.nested_sound 124).1, (Json.nested_sound 124).2.1⟩
      · exact ⟨(Json.nested_sound 125).1, (Json.nested_sound 125).2.1⟩
    have epoch : Instant.Fits ⟨0⟩ := show Instant.inRange 0 = true by decide
    exact ⟨InternalEventPayload.completed_fits epoch valid, InternalEventPayload.completed_plain plain⟩
  have read := (@published_read_back _ _ _ _ (.complete twoOutputs) _ _ rfl sent).2 .internalEvent _ carries
    sound
  have shallow : (encode (announcementOf ⟨1, 0, .nested 124⟩)).depth ≤ 127 :=
    InternalEventPayload.depth_completed.mpr (Nat.le_of_eq (Json.nested_sound 124).2.2)
  have deep : ¬(encode (announcementOf ⟨2, 0, .nested 125⟩)).depth ≤ 127 := by
    rw [announcementOf, InternalEventPayload.depth_completed, (Json.nested_sound 125).2.2]
    decide
  have kept : ∀ first second : InternalEventPayload, (encode first).depth ≤ 127 →
      ¬(encode second).depth ≤ 127 →
        [first, second].filter (fun p => decide ((encode p).depth ≤ 127)) = [first] := by
    intro first second shallow deep
    rw [List.filter_cons_of_pos (by simpa using shallow), List.filter_cons_of_neg (by simpa using deep)]
    rfl
  exact ⟨post, sent, carries, read.trans (kept _ _ shallow deep)⟩

end Request

end WorkflowEngine
