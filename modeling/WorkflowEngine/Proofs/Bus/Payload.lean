import WorkflowEngine.Bus.Payload
import WorkflowEngine.Proofs.Calendar.Text
import WorkflowEngine.Proofs.Identifier
import WorkflowEngine.Proofs.Json.Fields

/-!
What a consumer reads of a payload. The bytes of a value are read as the document it was written as,
and so whatever a consumer makes of a monitoring event, it is about the same attempt and says the same
of it.
-/

namespace WorkflowEngine

theorem Codec.ofBytes?_toBytes {α : Type} [Codec α] (a : α) :
    (Codec.ofBytes? (Codec.toBytes a) : Option α) = Codec.decode nestingLimit (encode a).document := by
  rw [Codec.ofBytes?, Codec.toBytes, Document.ofBytes?_text, Option.bind_some]

namespace EventType

theorem ofName?_name (type : EventType) : ofName? type.name = some type := by
  cases type <;> rfl

theorem parse_ok {name : String} {type : EventType} (h : parse name = .ok type) :
    ofName? name = some type := by
  unfold parse at h
  split at h
  · cases h
    assumption
  · cases h

theorem parse_name (type : EventType) : parse type.name = .ok type := by
  rw [parse, ofName?_name]

end EventType

/-! ### Fields of payloads -/

namespace Fields

variable {α : Type} {fields : Fields} {name : String} {d : Document} {decode : Decoder α} {a : α}

theorem required_some (h : fields.required name decode = some a) :
    ∃ d, fields.find? name = some d ∧ decode fields.depth d = some a :=
  Option.bind_eq_some_iff.mp h

theorem required_found (found : fields.find? name = some d) :
    fields.required name decode = decode fields.depth d := by
  rw [required, found, Option.bind_some]

theorem withDefault_found {default : α} (found : fields.find? name = some d) :
    fields.withDefault name default decode = decode fields.depth d := by
  rw [withDefault, found]

end Fields

namespace Decoder

variable {depth : Nat}

theorem identifier_document (id : Identifier) :
    Codec.decode depth (encode id).document = some (⟨id.value % 2 ^ 128⟩ : Identifier) := by
  simp only [Codec.decode, encode, parsed, text, Json.document, Option.bind_some]
  exact Identifier.parse?_text id

theorem optional_value {α : Type} {inner : Decoder α} {d : Document} {a : α} (value : d ≠ .null)
    (read : inner depth d = some a) : inner.optional depth d = some (some a) := by
  cases d with
  | null => exact absurd rfl value
  | _ => rw [optional, read, Option.map_some]; exact nofun

theorem instant_document {t : Instant} (range : Instant.inRange t.nanos = true) :
    Codec.decode depth (encode t).document = some t := by
  simp only [Codec.decode, encode, parsed, text, Json.document, Option.bind_some]
  exact Instant.parse?_text range

end Decoder

/-! ### Monitoring events -/

namespace MonitoringPayload

/-- Whatever is read of a monitoring event, it is about the same attempt and of the same type. -/
theorem ofBytes?_same {p q : MonitoringPayload} (h : Codec.ofBytes? (Codec.toBytes p) = some q) :
    q.taskId = p.taskId ∧ q.retryCount = p.retryCount ∧ q.eventType = p.eventType := by
  rw [Codec.ofBytes?_toBytes] at h
  obtain ⟨fields, read, -, find⟩ := @Fields.of?_found fieldNames _ nestingLimit (encode p)
    (by decide) rfl rfl (by decide)
  simp only [List.forall_mem_cons] at find
  obtain ⟨id, retry, -, type, -⟩ := find
  simp only [Codec.decode, read, Option.bind_eq_bind, Option.bind_some, Option.bind_eq_some_iff,
    Fields.required_found id, Fields.required_found retry, Fields.required_found type] at h
  obtain ⟨taskId, readId, retryCount, readRetry, _, _, eventType, readType, _, _, _, _, _, _, h⟩ := h
  cases h
  exact ⟨Decoder.intBetween_eq readId, Decoder.intBetween_eq readRetry, (Option.some.inj readType).symm⟩

/-- A monitoring event is read as long as its numbers fit and its instant is one of the calendar. -/
theorem ofBytes?_isSome {p : MonitoringPayload}
    (id : -9223372036854775808 ≤ p.taskId ∧ p.taskId ≤ 9223372036854775807)
    (retry : -2147483648 ≤ p.retryCount ∧ p.retryCount ≤ 2147483647)
    (moment : Instant.inRange p.timestamp.nanos = true) :
    ∃ q : MonitoringPayload, Codec.ofBytes? (Codec.toBytes p) = some q := by
  rw [Codec.ofBytes?_toBytes]
  obtain ⟨fields, read, -, find⟩ := @Fields.of?_found fieldNames _ nestingLimit (encode p)
    (by decide) rfl rfl (by decide)
  simp only [List.forall_mem_cons] at find
  obtain ⟨taskId, retryCount, workerId, eventType, timestamp, payload, message, -⟩ := find
  obtain ⟨w, readWorker⟩ : ∃ w, fields.optionalByDefault "worker_id" Codec.decode = some (w : Option Identifier) := by
    rw [Fields.optionalByDefault, Fields.withDefault_found workerId]
    cases p.workerId with
    | none => exact ⟨none, rfl⟩
    | some id => exact ⟨_, Decoder.optional_value nofun (Decoder.identifier_document id)⟩
  obtain ⟨text, readMessage⟩ : ∃ text, fields.optionalByDefault "event_message" .text = some text := by
    rw [Fields.optionalByDefault, Fields.withDefault_found message]
    cases p.message with
    | none => exact ⟨none, rfl⟩
    | some text => exact ⟨some text, rfl⟩
  have readId := (Fields.required_found taskId).trans (Decoder.int64_document id)
  have readRetry := (Fields.required_found retryCount).trans (Decoder.int32_document retry)
  have readType : fields.required "event_type" .text = some p.eventType := Fields.required_found eventType
  have readMoment := (Fields.required_found timestamp).trans
    (Decoder.instant_document moment)
  have readPayload : fields.withDefault "event_payload" "" .text = some p.payload :=
    Fields.withDefault_found payload
  exact ⟨_, by
    simp only [Codec.decode] at readMoment readWorker
    simp only [Codec.decode, read, readId, readRetry, readWorker, readType, readMoment, readPayload,
      readMessage, Option.bind_eq_bind, Option.bind_some]
    rfl⟩

end MonitoringPayload

/-! ### Announcements -/

namespace InternalEventPayload

/-- The key of an announcement, whatever its body holds. -/
def keyOf? (bytes : ByteArray) : Option String := do
  let d ← Document.ofBytes? bytes
  let fields ← Fields.of? ["event_timestamp", "event_key", "event_data"] nestingLimit d
  fields.required "event_key" .text

/-- However deep the body of an announcement is nested, its key can be read. -/
theorem keyOf?_toBytes (p : InternalEventPayload) : keyOf? (Codec.toBytes p) = some p.key := by
  obtain ⟨fields, read, -, find⟩ := @Fields.of?_found ["event_timestamp", "event_key", "event_data"] _
    nestingLimit (encode p) (by decide) rfl rfl (by decide)
  simp only [List.forall_mem_cons] at find
  obtain ⟨-, key, -⟩ := find
  simp only [keyOf?, Codec.toBytes, Document.ofBytes?_text, read, Option.bind_eq_bind, Option.bind_some]
  exact Fields.required_found key

/-- An announcement that is read has its key. -/
theorem keyOf?_read {bytes : ByteArray} {p : InternalEventPayload} (h : Codec.ofBytes? bytes = some p) :
    keyOf? bytes = some p.key := by
  obtain ⟨d, document, h⟩ := Option.bind_eq_some_iff.mp h
  obtain ⟨fields, read, h⟩ := Option.bind_eq_some_iff.mp h
  obtain ⟨timestamp, _, h⟩ := Option.bind_eq_some_iff.mp h
  obtain ⟨key, readKey, h⟩ := Option.bind_eq_some_iff.mp h
  obtain ⟨data, _, h⟩ := Option.bind_eq_some_iff.mp h
  cases h
  simp only [keyOf?, document, read, Option.bind_eq_bind, Option.bind_some]
  exact readKey

end InternalEventPayload

/-! ### Tasks -/

/-- Whatever is read of a task, it is about the same one. -/
theorem Task.ofBytes?_id {t u : Task} (h : Codec.ofBytes? (Codec.toBytes t) = some u) : u.id = t.id := by
  rw [Codec.ofBytes?_toBytes] at h
  obtain ⟨fields, read, -, find⟩ := @Fields.of?_found fieldNames _ nestingLimit (encode t)
    (by decide) rfl rfl (by decide)
  obtain ⟨id, -⟩ := List.forall_mem_cons.mp find
  obtain ⟨fields', read', h⟩ := Option.bind_eq_some_iff.mp h
  cases read.symm.trans read'
  obtain ⟨taskId, readId, h⟩ := Option.bind_eq_some_iff.mp h
  rw [Fields.required_found id] at readId
  iterate 29 obtain ⟨_, _, h⟩ := Option.bind_eq_some_iff.mp h
  cases h
  exact Decoder.intBetween_eq readId

end WorkflowEngine
