import WorkflowEngine.Proofs.Bus.Payload
import WorkflowEngine.Proofs.Json.ReadBack

/-!
Tasks and runs read back. What a row may hold is bounded by the width of its numbers, the calendar and
the length of identifiers. Such a row is read back as it was written, unless its input holds doubles or
it is nested too deeply.
-/

namespace WorkflowEngine

/-- The identifier has 128 bits. -/
def Identifier.Fits (id : Identifier) : Prop := id.value < 2 ^ 128

/-- The calendar covers the instant. -/
def Instant.Fits (t : Instant) : Prop := Instant.inRange t.nanos = true

namespace Decoder.ReadsBack

theorem identifier {id : Identifier} (fits : id.Fits) : ReadsBack Codec.decode (encode id) id := by
  intro depth _
  rw [identifier_document, Nat.mod_eq_of_lt fits]

theorem instant {t : Instant} (fits : t.Fits) : ReadsBack Codec.decode (encode t) t :=
  fun _ _ => instant_document fits

theorem taskState (s : TaskState) : ReadsBack Codec.decode (encode s) s :=
  constant (by cases s <;> rfl)

theorem initialState (s : InitialState) : ReadsBack Codec.decode (encode s) s :=
  constant (by cases s <;> rfl)

theorem eventType (t : EventType) : ReadsBack Codec.decode (encode t) t :=
  constant (EventType.ofName?_name t)

/-! ### Optional fields -/

theorem optionalInt64 {o : Option Int} (fits : ∀ n ∈ o, FitsInt64 n) :
    ReadsBack Decoder.int64.optional (.ofOption .int o) o :=
  optional (fun _ _ => nofun) fun n h => int64 (fits n h)

theorem optionalText (o : Option String) : ReadsBack Decoder.text.optional (.ofOption .str o) o :=
  optional (fun _ _ => nofun) fun s _ => text s

theorem optionalIdentifier {o : Option Identifier} (fits : ∀ id ∈ o, id.Fits) :
    ReadsBack (Decoder.optional Codec.decode) (.ofOption encode o) o :=
  optional (fun _ _ => nofun) fun id h => identifier (fits id h)

theorem optionalInstant {o : Option Instant} (fits : ∀ t ∈ o, t.Fits) :
    ReadsBack (Decoder.optional Codec.decode) (.ofOption encode o) o :=
  optional (fun _ _ => nofun) fun t h => instant (fits t h)

end Decoder.ReadsBack

/-- One more field of a record was read. -/
theorem read_field {α β : Type} {x : Option α} {a : α} {rest : α → Option β} {r : Option β}
    (read : x = some a) (others : rest a = r) : x >>= rest = r := by
  rw [read]
  exact others

/-! ### Tasks -/

namespace Task

/-- The task holds nothing that is out of range. -/
structure Fits (t : Task) : Prop where
  id : FitsInt64 t.id
  insertedAt : t.insertedAt.Fits
  tenantId : t.tenantId.Fits
  externalId : t.externalId.Fits
  stepId : t.stepId.Fits
  workflowId : t.workflowId.Fits
  dagId : ∀ n ∈ t.dagId, FitsInt64 n
  dagInsertedAt : ∀ x ∈ t.dagInsertedAt, x.Fits
  input : t.input.Valid
  additionalMetadata : t.additionalMetadata.Pairwise (·.1 < ·.1)
  retryCount : FitsInt32 t.retryCount
  internalRetryCount : FitsInt32 t.internalRetryCount
  retries : FitsInt32 t.retries
  desiredWorkerId : ∀ w ∈ t.desiredWorkerId, w.Fits
  workerId : ∀ w ∈ t.workerId, w.Fits
  concurrencyStrategyIds : ∀ n ∈ t.concurrencyStrategyIds, FitsInt64 n
  scheduleTimeoutSecs : FitsInt64 t.scheduleTimeoutSecs
  stepTimeoutSecs : FitsInt64 t.stepTimeoutSecs
  scheduleTimeoutAt : ∀ x ∈ t.scheduleTimeoutAt, x.Fits
  timeoutAt : ∀ x ∈ t.timeoutAt, x.Fits
  parentTaskId : ∀ n ∈ t.parentTaskId, FitsInt64 n
  childIndex : ∀ n ∈ t.childIndex, FitsInt64 n

theorem readsBack {t : Task} (fits : t.Fits) (plain : t.input.DoubleFree) :
    Decoder.ReadsBack Codec.decode (encode t) t := by
  refine Fields.record_readsBack fieldNames rfl rfl (by decide) fun fields holds => ?_
  simp only [List.forall_mem_cons] at holds
  obtain ⟨id, insertedAt, tenantId, externalId, queue, stepId, stepReadableId, workflowId, displayName,
    dagId, dagInsertedAt, input, additionalMetadata, retryCount, internalRetryCount, retries, state,
    initialState, initialStateReason, desiredWorkerId, workerId, concurrencyKeys,
    concurrencyStrategyIds, scheduleTimeoutSecs, stepTimeoutSecs, scheduleTimeoutAt, timeoutAt,
    parentTaskId, childIndex, childKey, -⟩ := holds
  refine read_field (id.required (.int64 fits.id)) ?_
  refine read_field (insertedAt.required (.instant fits.insertedAt)) ?_
  refine read_field (tenantId.required (.identifier fits.tenantId)) ?_
  refine read_field (externalId.required (.identifier fits.externalId)) ?_
  refine read_field (queue.required (.text _)) ?_
  refine read_field (stepId.required (.identifier fits.stepId)) ?_
  refine read_field (stepReadableId.required (.text _)) ?_
  refine read_field (workflowId.required (.identifier fits.workflowId)) ?_
  refine read_field (displayName.required (.text _)) ?_
  refine read_field (dagId.optional (.optionalInt64 fits.dagId)) ?_
  refine read_field (dagInsertedAt.optional (.optionalInstant fits.dagInsertedAt)) ?_
  refine read_field (input.required (.json fits.input plain)) ?_
  refine read_field (additionalMetadata.required (.textMap fits.additionalMetadata)) ?_
  refine read_field (retryCount.required (.int32 fits.retryCount)) ?_
  refine read_field (internalRetryCount.required (.int32 fits.internalRetryCount)) ?_
  refine read_field (retries.required (.int32 fits.retries)) ?_
  refine read_field (state.required (.taskState _)) ?_
  refine read_field (initialState.required (.initialState _)) ?_
  refine read_field (initialStateReason.optional (.optionalText _)) ?_
  refine read_field (desiredWorkerId.optional (.optionalIdentifier fits.desiredWorkerId)) ?_
  refine read_field (workerId.optional (.optionalIdentifier fits.workerId)) ?_
  refine read_field (concurrencyKeys.required (.list fun key _ => .text key)) ?_
  refine read_field (concurrencyStrategyIds.required
    (.list fun n h => .int64 (fits.concurrencyStrategyIds n h))) ?_
  refine read_field (scheduleTimeoutSecs.required (.int64 fits.scheduleTimeoutSecs)) ?_
  refine read_field (stepTimeoutSecs.required (.int64 fits.stepTimeoutSecs)) ?_
  refine read_field (scheduleTimeoutAt.optional (.optionalInstant fits.scheduleTimeoutAt)) ?_
  refine read_field (timeoutAt.optional (.optionalInstant fits.timeoutAt)) ?_
  refine read_field (parentTaskId.optional (.optionalInt64 fits.parentTaskId)) ?_
  refine read_field (childIndex.optional (.optionalInt64 fits.childIndex)) ?_
  exact read_field (childKey.optional (.optionalText _)) rfl

end Task

/-! ### Runs -/

namespace Dag

/-- The run holds nothing that is out of range. -/
structure Fits (r : Dag) : Prop where
  id : FitsInt64 r.id
  insertedAt : r.insertedAt.Fits
  tenantId : r.tenantId.Fits
  externalId : r.externalId.Fits
  workflowId : r.workflowId.Fits
  input : r.input.Valid
  additionalMetadata : r.additionalMetadata.Pairwise (·.1 < ·.1)
  totalTasks : r.totalTasks < UInt64.size

/-- A written run has no members but its own fields. -/
theorem othersReadable_encode (r : Dag) (depth : Nat) : othersReadable depth (encode r).document = true := by
  obtain ⟨ms, form, named⟩ : ∃ ms, encode r = Json.ofMembers ms ∧ ms.map (·.1) = fieldNames := ⟨_, rfl, rfl⟩
  rw [form]
  change (Json.memberDocuments (Json.placed ms)).all _ = true
  rw [Json.memberDocuments_eq, List.all_map, List.all_eq_true]
  intro m member
  have own : m.1 ∈ fieldNames := named ▸ List.mem_map_of_mem (Json.mem_placed member)
  exact Bool.or_eq_true_iff.mpr (Or.inl (List.contains_iff_mem.mpr own))

theorem readsBack {r : Dag} (fits : r.Fits) (plain : r.input.DoubleFree) :
    Decoder.ReadsBack Codec.decode (encode r) r := by
  intro depth shallow
  obtain ⟨fields, read, holds⟩ := @Fields.of?_holds fieldNames _ _ depth shallow rfl rfl (by decide)
  simp only [List.forall_mem_cons] at holds
  obtain ⟨id, insertedAt, tenantId, externalId, workflowId, displayName, input, additionalMetadata,
    totalTasks, -⟩ := holds
  refine read_field (if_pos (othersReadable_encode r depth)) ?_
  refine read_field read ?_
  refine read_field (id.required (.int64 fits.id)) ?_
  refine read_field (insertedAt.required (.instant fits.insertedAt)) ?_
  refine read_field (tenantId.required (.identifier fits.tenantId)) ?_
  refine read_field (externalId.required (.identifier fits.externalId)) ?_
  refine read_field (workflowId.required (.identifier fits.workflowId)) ?_
  refine read_field (displayName.required (.text _)) ?_
  refine read_field (input.required (.json fits.input plain)) ?_
  refine read_field (additionalMetadata.required (.textMap fits.additionalMetadata)) ?_
  exact read_field (totalTasks.required (.natBelow fits.totalTasks (by decide))) rfl

end Dag

end WorkflowEngine
