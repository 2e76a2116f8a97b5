import WorkflowEngine.Proofs.Task.ReadBack

/-!
Messages read back. Whatever the payloads of a message are, a consumer of their type reads the same
list of them, in order: all strings, all integers of the machine's widths, all instants of the calendar
and all free values without doubles, up to the nesting that readers accept.
-/

namespace WorkflowEngine

theorem Fields.Holds.optionalByDefault {α : Type} {fields : Fields} {name : String} {written : Json}
    {decode : Decoder α} {o : Option α} (held : fields.Holds name written)
    (back : decode.optional.ReadsBack written o) : fields.optionalByDefault name decode = some o :=
  held.withDefault back

/-! ### Payloads -/

namespace CompletedPayload

structure Fits (p : CompletedPayload) : Prop where
  taskId : FitsInt64 p.taskId
  retryCount : FitsInt32 p.retryCount
  output : p.output.Valid

theorem readsBack {p : CompletedPayload} (fits : p.Fits) (plain : p.output.DoubleFree) :
    Decoder.ReadsBack Codec.decode (encode p) p := by
  refine Fields.record_readsBack
    ["task_id", "retry_count", "output"] rfl rfl (by decide)
    fun fields holds => ?_
  simp only [List.forall_mem_cons] at holds
  obtain ⟨taskId, retryCount, output, -⟩ := holds
  refine read_field (taskId.required (.int64 fits.taskId)) ?_
  refine read_field (retryCount.required (.int32 fits.retryCount)) ?_
  exact read_field (output.withDefault (.json fits.output plain)) rfl

end CompletedPayload

namespace FailedPayload

structure Fits (p : FailedPayload) : Prop where
  taskId : FitsInt64 p.taskId
  retryCount : FitsInt32 p.retryCount

theorem readsBack {p : FailedPayload} (fits : p.Fits) : Decoder.ReadsBack Codec.decode (encode p) p := by
  refine Fields.record_readsBack
    ["task_id", "retry_count", "is_app_error", "error_msg"] rfl rfl (by decide)
    fun fields holds => ?_
  simp only [List.forall_mem_cons] at holds
  obtain ⟨taskId, retryCount, isAppError, errorMessage, -⟩ := holds
  refine read_field (taskId.required (.int64 fits.taskId)) ?_
  refine read_field (retryCount.required (.int32 fits.retryCount)) ?_
  refine read_field (isAppError.required (.bool _)) ?_
  exact read_field (errorMessage.required (.text _)) rfl

end FailedPayload

namespace CancelledPayload

structure Fits (p : CancelledPayload) : Prop where
  taskId : FitsInt64 p.taskId
  retryCount : FitsInt32 p.retryCount

theorem readsBack {p : CancelledPayload} (fits : p.Fits) :
    Decoder.ReadsBack Codec.decode (encode p) p := by
  refine Fields.record_readsBack
    ["task_id", "retry_count", "should_notify", "event_type", "event_message"] rfl rfl (by decide)
    fun fields holds => ?_
  simp only [List.forall_mem_cons] at holds
  obtain ⟨taskId, retryCount, shouldNotify, eventType, eventMessage, -⟩ := holds
  refine read_field (taskId.required (.int64 fits.taskId)) ?_
  refine read_field (retryCount.required (.int32 fits.retryCount)) ?_
  refine read_field (shouldNotify.required (.bool _)) ?_
  refine read_field (eventType.withDefault (.eventType _)) ?_
  exact read_field (eventMessage.optionalByDefault (.optionalText _)) rfl

end CancelledPayload

namespace UserEventPayload

structure Fits (p : UserEventPayload) : Prop where
  eventId : p.eventId.Fits
  data : p.data.Valid
  metadata : p.metadata.Pairwise (·.1 < ·.1)

theorem readsBack {p : UserEventPayload} (fits : p.Fits) (plain : p.data.DoubleFree) :
    Decoder.ReadsBack Codec.decode (encode p) p := by
  refine Fields.record_readsBack
    ["event_id", "event_key", "event_data", "event_additional_metadata"] rfl rfl (by decide)
    fun fields holds => ?_
  simp only [List.forall_mem_cons] at holds
  obtain ⟨eventId, key, data, metadata, -⟩ := holds
  refine read_field (eventId.required (.identifier fits.eventId)) ?_
  refine read_field (key.required (.text _)) ?_
  refine read_field (data.withDefault (.json fits.data plain)) ?_
  exact read_field (metadata.withDefault (.textMap fits.metadata)) rfl

end UserEventPayload

namespace InternalEventPayload

structure Fits (p : InternalEventPayload) : Prop where
  timestamp : p.timestamp.Fits
  data : p.data.Valid

theorem readsBack {p : InternalEventPayload} (fits : p.Fits) (plain : p.data.DoubleFree) :
    Decoder.ReadsBack Codec.decode (encode p) p := by
  refine Fields.record_readsBack
    ["event_timestamp", "event_key", "event_data"] rfl rfl (by decide)
    fun fields holds => ?_
  simp only [List.forall_mem_cons] at holds
  obtain ⟨timestamp, key, data, -⟩ := holds
  refine read_field (timestamp.required (.instant fits.timestamp)) ?_
  refine read_field (key.required (.text _)) ?_
  exact read_field (data.withDefault (.json fits.data plain)) rfl

end InternalEventPayload

namespace TriggerPayload

structure Fits (p : TriggerPayload) : Prop where
  externalId : p.externalId.Fits
  data : p.data.Valid
  metadata : p.metadata.Pairwise (·.1 < ·.1)
  parentTaskId : ∀ n ∈ p.parentTaskId, FitsInt64 n
  childIndex : ∀ n ∈ p.childIndex, FitsInt64 n

theorem readsBack {p : TriggerPayload} (fits : p.Fits) (plain : p.data.DoubleFree) :
    Decoder.ReadsBack Codec.decode (encode p) p := by
  refine Fields.record_readsBack fieldNames rfl rfl (by decide) fun fields holds => ?_
  simp only [List.forall_mem_cons] at holds
  obtain ⟨externalId, workflowName, data, metadata, parentTaskId, childIndex, childKey, -⟩ := holds
  refine read_field (externalId.required (.identifier fits.externalId)) ?_
  refine read_field (workflowName.required (.text _)) ?_
  refine read_field (data.withDefault (.json fits.data plain)) ?_
  refine read_field (metadata.withDefault (.textMap fits.metadata)) ?_
  refine read_field (parentTaskId.optionalByDefault (.optionalInt64 fits.parentTaskId)) ?_
  refine read_field (childIndex.optionalByDefault (.optionalInt64 fits.childIndex)) ?_
  exact read_field (childKey.optionalByDefault (.optionalText _)) rfl

end TriggerPayload

namespace StopPayload

structure Fits (p : StopPayload) : Prop where
  taskId : FitsInt64 p.taskId
  workerId : p.workerId.Fits
  retryCount : FitsInt32 p.retryCount

theorem readsBack {p : StopPayload} (fits : p.Fits) : Decoder.ReadsBack Codec.decode (encode p) p := by
  refine Fields.record_readsBack
    ["task_id", "worker_id", "retry_count"] rfl rfl (by decide)
    fun fields holds => ?_
  simp only [List.forall_mem_cons] at holds
  obtain ⟨taskId, workerId, retryCount, -⟩ := holds
  refine read_field (taskId.required (.int64 fits.taskId)) ?_
  refine read_field (workerId.required (.identifier fits.workerId)) ?_
  exact read_field (retryCount.required (.int32 fits.retryCount)) rfl

end StopPayload

namespace MonitoringPayload

structure Fits (p : MonitoringPayload) : Prop where
  taskId : FitsInt64 p.taskId
  retryCount : FitsInt32 p.retryCount
  workerId : ∀ w ∈ p.workerId, w.Fits
  timestamp : p.timestamp.Fits

theorem readsBack {p : MonitoringPayload} (fits : p.Fits) :
    Decoder.ReadsBack Codec.decode (encode p) p := by
  refine Fields.record_readsBack fieldNames rfl rfl (by decide) fun fields holds => ?_
  simp only [List.forall_mem_cons] at holds
  obtain ⟨taskId, retryCount, workerId, eventType, timestamp, payload, message, -⟩ := holds
  refine read_field (taskId.required (.int64 fits.taskId)) ?_
  refine read_field (retryCount.required (.int32 fits.retryCount)) ?_
  refine read_field (workerId.optionalByDefault (.optionalIdentifier fits.workerId)) ?_
  refine read_field (eventType.required (.text _)) ?_
  refine read_field (timestamp.required (.instant fits.timestamp)) ?_
  refine read_field (payload.withDefault (.text _)) ?_
  exact read_field (message.optionalByDefault (.optionalText _)) rfl

end MonitoringPayload

namespace NoticePayload

def Fits (p : NoticePayload) : Prop := ∀ n ∈ p.strategyIds, FitsInt64 n

theorem readsBack {p : NoticePayload} (fits : p.Fits) : Decoder.ReadsBack Codec.decode (encode p) p := by
  refine Fields.record_readsBack ["queue", "strategy_ids"] rfl rfl (by decide) fun fields holds => ?_
  simp only [List.forall_mem_cons] at holds
  obtain ⟨queue, strategyIds, -⟩ := holds
  refine read_field (queue.required (.text _)) ?_
  exact read_field (strategyIds.withDefault (.list fun n h => .int64 (fits n h))) rfl

end NoticePayload

/-! ### Bytes -/

namespace Message

theorem byteLoop_eq (b : ByteArray) (i : Nat) (acc : List UInt8) :
    ByteArray.toList.loop b i acc = acc.reverse ++ b.data.toList.drop i := by
  induction i, acc using ByteArray.toList.loop.induct b with
  | case1 i acc inside ih =>
    have next : b.data.toList.drop i = b.data[i] :: b.data.toList.drop (i + 1) :=
      List.drop_eq_getElem_cons inside
    rw [ByteArray.toList.loop, if_pos inside, ih, next, List.reverse_cons, List.append_assoc]
    have here : b.get! i = b.data[i] := getElem!_pos b.data i inside
    rw [here]
    rfl
  | case2 i acc past =>
    have behind : b.data.toList.length ≤ i := Nat.le_of_not_lt past
    rw [ByteArray.toList.loop, if_neg past, List.drop_of_length_le behind, List.append_nil]

theorem bytes_readBack (b : ByteArray) : Decoder.ReadsBack decodeBytes (encodeBytes b) b := by
  intro depth shallow
  have numbers : encodeBytes b = .ofList .ofNat (b.data.toList.map UInt8.toNat) := by
    rw [encodeBytes, ByteArray.toList, byteLoop_eq, Json.ofList, Json.ofList, List.map_map]
    rfl
  have bounded : ∀ n ∈ b.data.toList.map UInt8.toNat, n < 256 := by
    intro n member
    obtain ⟨x, -, rfl⟩ := List.mem_map.mp member
    exact x.toNat_lt
  rw [numbers] at shallow ⊢
  have read := Decoder.ReadsBack.list (fun n member => .natBelow (bounded n member) (by decide)) depth shallow
  refine read_field read ?_
  have same : (b.data.toList.map UInt8.toNat).map Nat.toUInt8 = b.data.toList := by
    rw [List.map_map]
    exact (List.map_congr_left fun x _ => UInt8.ofNat_toNat).trans (List.map_id _)
  rw [same]
  rfl

/-! ### Messages -/

/-- The message holds nothing that is out of range. -/
structure Fits (m : Message) : Prop where
  tenantId : m.tenantId.Fits
  trace : m.trace.Pairwise (·.1 < ·.1)
  retries : m.retries < UInt32.size

theorem readsBack {m : Message} (fits : m.Fits) : Decoder.ReadsBack Codec.decode (encode m) m := by
  refine Fields.record_readsBack fieldNames rfl rfl (by decide) fun fields holds => ?_
  simp only [List.forall_mem_cons] at holds
  obtain ⟨kindName, payloads, tenantId, expires, persistent, trace, retries, -⟩ := holds
  refine read_field (kindName.required (.text _)) ?_
  refine read_field (payloads.required (.list fun b _ => bytes_readBack b)) ?_
  refine read_field (tenantId.required (.identifier fits.tenantId)) ?_
  refine read_field (expires.required (.bool _)) ?_
  refine read_field (persistent.required (.bool _)) ?_
  refine read_field (trace.withDefault (.textMap fits.trace)) ?_
  exact read_field (retries.required (.natBelow fits.retries (by decide))) rfl

end Message

/-! ### Any payload -/

/-- The types of payloads. -/
inductive PayloadType where
  | completed
  | failed
  | cancelled
  | userEvent
  | internalEvent
  | trigger
  | stop
  | monitoring
  | notice
  | task
  | dag

namespace PayloadType

/-- The values of a type. -/
def Value : PayloadType → Type
  | completed => CompletedPayload
  | failed => FailedPayload
  | cancelled => CancelledPayload
  | userEvent => UserEventPayload
  | internalEvent => InternalEventPayload
  | trigger => TriggerPayload
  | stop => StopPayload
  | monitoring => MonitoringPayload
  | notice => NoticePayload
  | task => Task
  | dag => Dag

instance (type : PayloadType) : Codec type.Value :=
  match type with
  | completed => inferInstanceAs (Codec CompletedPayload)
  | failed => inferInstanceAs (Codec FailedPayload)
  | cancelled => inferInstanceAs (Codec CancelledPayload)
  | userEvent => inferInstanceAs (Codec UserEventPayload)
  | internalEvent => inferInstanceAs (Codec InternalEventPayload)
  | trigger => inferInstanceAs (Codec TriggerPayload)
  | stop => inferInstanceAs (Codec StopPayload)
  | monitoring => inferInstanceAs (Codec MonitoringPayload)
  | notice => inferInstanceAs (Codec NoticePayload)
  | task => inferInstanceAs (Codec Task)
  | dag => inferInstanceAs (Codec Dag)

/-- The value holds nothing that is out of range. -/
def Fits : (type : PayloadType) → type.Value → Prop
  | completed, p => CompletedPayload.Fits p
  | failed, p => FailedPayload.Fits p
  | cancelled, p => CancelledPayload.Fits p
  | userEvent, p => UserEventPayload.Fits p
  | internalEvent, p => InternalEventPayload.Fits p
  | trigger, p => TriggerPayload.Fits p
  | stop, p => StopPayload.Fits p
  | monitoring, p => MonitoringPayload.Fits p
  | notice, p => NoticePayload.Fits p
  | task, t => Task.Fits t
  | dag, r => Dag.Fits r

/-- The part of a value that may be any JSON, or null where there is none. -/
def free : (type : PayloadType) → type.Value → Json
  | completed, p => CompletedPayload.output p
  | userEvent, p => UserEventPayload.data p
  | internalEvent, p => InternalEventPayload.data p
  | trigger, p => TriggerPayload.data p
  | task, t => Task.input t
  | dag, r => Dag.input r
  | failed, _ | cancelled, _ | stop, _ | monitoring, _ | notice, _ => .null

theorem readsBack (type : PayloadType) {p : type.Value} (fits : type.Fits p)
    (plain : (type.free p).DoubleFree) : Decoder.ReadsBack Codec.decode (encode p) p :=
  match type with
  | completed => CompletedPayload.readsBack fits plain
  | failed => FailedPayload.readsBack fits
  | cancelled => CancelledPayload.readsBack fits
  | userEvent => UserEventPayload.readsBack fits plain
  | internalEvent => InternalEventPayload.readsBack fits plain
  | trigger => TriggerPayload.readsBack fits plain
  | stop => StopPayload.readsBack fits
  | monitoring => MonitoringPayload.readsBack fits
  | notice => NoticePayload.readsBack fits
  | task => Task.readsBack fits plain
  | dag => Dag.readsBack fits plain

end PayloadType

/-- What is nested in few enough containers is read back from its bytes. -/
theorem Codec.ofBytes?_readsBack {α : Type} [Codec α] {a : α}
    (back : Decoder.ReadsBack Codec.decode (encode a) a) (shallow : (encode a).depth < nestingLimit) :
    Codec.ofBytes? (Codec.toBytes a) = some a := by
  rw [Codec.ofBytes?_toBytes]
  exact back nestingLimit shallow

theorem decodePayloads_toBytes {α : Type} [Codec α] {l : List α}
    (read : ∀ a ∈ l, Codec.ofBytes? (Codec.toBytes a) = some a) :
    decodePayloads α (l.map Codec.toBytes) = l := by
  rw [decodePayloads, List.filterMap_map]
  exact (List.filterMap_congr read).trans List.filterMap_some

namespace Message

/-- A message is nested in three containers at most. -/
theorem depth_encode (m : Message) : (encode m).depth ≤ 3 := by
  have bytes : (Json.ofList encodeBytes m.payloads).depth ≤ 2 :=
    Json.depth_ofList.mpr fun b _ => Json.depth_ofList.mpr fun x _ => Nat.le_refl 0
  refine Json.depth_ofMembers_le ?_
  simp only [List.forall_mem_cons]
  exact ⟨Nat.zero_le 2, bytes, Nat.zero_le 2, Nat.zero_le 2, Nat.zero_le 2, Json.depth_ofTexts m.trace,
    Nat.zero_le 2, nofun⟩

/-- The payloads of a message are read as the list of values it was made of, in order, and a message is
read as itself. -/
theorem round_trip {type : PayloadType} {ps : List type.Value} {m : Message} (kind : MessageKind)
    (expires persistent : Bool) (tenant : TenantId) (fits : ∀ p ∈ ps, type.Fits p)
    (plain : ∀ p ∈ ps, (type.free p).DoubleFree) (shallow : ∀ p ∈ ps, (encode p).depth ≤ 127)
    (sound : m.Fits) :
    decodePayloads type.Value (ofPayloads kind expires persistent tenant ps).payloads = ps ∧
      Codec.ofBytes? (Codec.toBytes m) = some m := by
  constructor
  · refine decodePayloads_toBytes fun p member => ?_
    exact Codec.ofBytes?_readsBack (type.readsBack (fits p member) (plain p member))
      (Nat.lt_succ_of_le (shallow p member))
  · have levels : (encode m).depth < nestingLimit := Nat.lt_of_le_of_lt (depth_encode m) (by decide)
    exact Codec.ofBytes?_readsBack (readsBack sound) levels

/-- The order to run a workflow on a nested input with a text that has to be escaped. -/
def errand : TriggerPayload where
  externalId := ⟨7⟩
  workflowName := "wörk"
  data := .obj [("deep", .arr [.int 18446744073709551615, .str "\"\n", .obj []]), ("n", .int (-1))]
  metadata := [("a", "1"), ("b", "2")]
  parentTaskId := some 9223372036854775807
  childKey := some ""

theorem errand_round_trip :
    decodePayloads TriggerPayload (triggers ⟨3⟩ (List.replicate 2 errand)).payloads =
        List.replicate 2 errand ∧
      Codec.ofBytes? (Codec.toBytes (triggers ⟨3⟩ [errand])) = some (triggers ⟨3⟩ [errand]) := by
  have valid : errand.data.Valid := by
    simp only [errand, Json.Valid, Json.Throughout, Json.MembersThroughout, Json.ItemsThroughout,
      Json.WellFormed]
    decide
  have plain : errand.data.DoubleFree := by
    simp [errand, Json.DoubleFree, Json.Throughout, Json.MembersThroughout, Json.ItemsThroughout]
  have fits : errand.Fits := {
    externalId := (by decide : 7 < 2 ^ 128)
    data := valid
    metadata := by decide
    parentTaskId := by simp [errand, FitsInt64]
    childIndex := by simp [errand] }
  have shallow : (encode errand).depth ≤ 127 :=
    Json.depth_ofMembers_le (by decide)
  exact @round_trip .trigger (List.replicate 2 errand) (triggers ⟨3⟩ [errand]) .taskTrigger false true ⟨3⟩
    (fun p member => List.eq_of_mem_replicate member ▸ fits)
    (fun p member => List.eq_of_mem_replicate member ▸ plain)
    (fun p member => List.eq_of_mem_replicate member ▸ shallow)
    ⟨(by decide : 3 < 2 ^ 128), .nil, by decide⟩

end Message

end WorkflowEngine
