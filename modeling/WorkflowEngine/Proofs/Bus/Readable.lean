import WorkflowEngine.Proofs.Bus.ReadBack

/-!
Which payloads a consumer can read. Writing knows no limit to the nesting of a free value, and reading
does: a payload without doubles is read back if and only if it is nested in 127 containers at most. A
value that is wrapped once more on its way through the engine may get past the limit.
-/

namespace WorkflowEngine

/-! ### Reading free values -/

namespace Fields

variable {fields : Fields} {name : String} {j k : Json}

/-- The fields of a written record from which something was read. -/
theorem read_record {α : Type} (names : List String) {ms : List (String × Json)} {depth : Nat}
    {rest : Fields → Option α} {a : α} (form : j = Json.ofMembers ms) (named : ms.map (·.1) = names)
    (distinct : names.Nodup) (read : (Fields.of? names depth j.document >>= rest) = some a) :
    ∃ fields, rest fields = some a ∧ 0 < fields.depth ∧ fields.depth = depth - 1 ∧
      ∀ m ∈ ms, fields.find? m.1 = some m.2.document := by
  obtain ⟨fields, record, read⟩ := Option.bind_eq_some_iff.mp read
  have deep : 1 < depth := by
    apply Nat.lt_of_not_le
    intro flat
    rw [form] at record
    change (if depth ≤ 1 then none else _) = _ at record
    rw [if_pos flat] at record
    cases record
  obtain ⟨_, again, levels, find⟩ := of?_found deep form named distinct
  cases record.symm.trans again
  exact ⟨fields, read, by omega, levels, find⟩

theorem depth_lt_of_required (found : fields.find? name = some j.document) (levels : 0 < fields.depth)
    (read : fields.required name .json = some k) : j.depth < fields.depth := by
  rw [required_found found] at read
  exact Document.depth_lt_of_toJson? j levels read

/-- Where the third field of a record is a free value, it is read only with levels enough for it. -/
theorem depth_lt_of_third {α β γ : Type} (names : List String) {ms : List (String × Json)} {depth : Nat}
    {first : Fields → Option β} {second : Fields → Option γ} {rest : Fields → β → γ → Json → Option α}
    {value : Json} {a : α} (form : j = Json.ofMembers ms) (named : ms.map (·.1) = names)
    (distinct : names.Nodup) (member : (name, value) ∈ ms)
    (read : (Fields.of? names depth j.document >>= fun fields => first fields >>= fun b =>
      second fields >>= fun c => fields.withDefault name .null .json >>= rest fields b c) = some a) :
    value.depth < depth - 1 := by
  obtain ⟨fields, read, levels, same, find⟩ := read_record names form named distinct read
  obtain ⟨_, _, read⟩ := Option.bind_eq_some_iff.mp read
  obtain ⟨_, _, read⟩ := Option.bind_eq_some_iff.mp read
  obtain ⟨k, read, -⟩ := Option.bind_eq_some_iff.mp read
  rw [withDefault_found (find _ member)] at read
  exact same ▸ Document.depth_lt_of_toJson? value levels read

end Fields

/-! ### Free values of payloads -/

section

variable {depth : Nat}

theorem CompletedPayload.depth_lt_of_read {p q : CompletedPayload}
    (read : Codec.decode depth (encode p).document = some q) : p.output.depth < depth - 1 :=
  Fields.depth_lt_of_third ["task_id", "retry_count", "output"] rfl rfl (by decide) (by simp) read

theorem UserEventPayload.depth_lt_of_read {p q : UserEventPayload}
    (read : Codec.decode depth (encode p).document = some q) : p.data.depth < depth - 1 :=
  Fields.depth_lt_of_third ["event_id", "event_key", "event_data", "event_additional_metadata"] rfl rfl
    (by decide) (by simp) read

theorem InternalEventPayload.depth_lt_of_read {p q : InternalEventPayload}
    (read : Codec.decode depth (encode p).document = some q) : p.data.depth < depth - 1 :=
  Fields.depth_lt_of_third ["event_timestamp", "event_key", "event_data"] rfl rfl (by decide)
    (by simp) read

theorem TriggerPayload.depth_lt_of_read {p q : TriggerPayload}
    (read : Codec.decode depth (encode p).document = some q) : p.data.depth < depth - 1 :=
  Fields.depth_lt_of_third fieldNames rfl rfl (by decide) (by simp) read

theorem Task.depth_lt_of_read {t u : Task} (read : Codec.decode depth (encode t).document = some u) :
    t.input.depth < depth - 1 := by
  obtain ⟨fields, read, levels, same, find⟩ := Fields.read_record fieldNames rfl rfl (by decide) read
  have input := find ("input", t.input) (by simp)
  iterate 11 obtain ⟨_, _, read⟩ := Option.bind_eq_some_iff.mp read
  obtain ⟨_, read, -⟩ := Option.bind_eq_some_iff.mp read
  exact same ▸ Fields.depth_lt_of_required input levels read

theorem Dag.depth_lt_of_read {r r' : Dag} (read : Codec.decode depth (encode r).document = some r') :
    r.input.depth < depth - 1 := by
  obtain ⟨_, -, read⟩ := Option.bind_eq_some_iff.mp read
  obtain ⟨fields, read, levels, same, find⟩ := Fields.read_record fieldNames rfl rfl (by decide) read
  have input := find ("input", r.input) (by simp)
  iterate 6 obtain ⟨_, _, read⟩ := Option.bind_eq_some_iff.mp read
  obtain ⟨_, read, -⟩ := Option.bind_eq_some_iff.mp read
  exact same ▸ Fields.depth_lt_of_required input levels read

end

/-! ### Payloads of any type -/

namespace PayloadType

@[simp] theorem depth_identifier (id : Identifier) : (encode id).depth = 0 := rfl
@[simp] theorem depth_instant (t : Instant) : (encode t).depth = 0 := rfl
@[simp] theorem depth_taskState (s : TaskState) : (encode s).depth = 0 := rfl
@[simp] theorem depth_initialState (s : InitialState) : (encode s).depth = 0 := rfl
@[simp] theorem depth_eventType (t : EventType) : (encode t).depth = 0 := rfl

/-- A payload is nested one level more than its free value, and in two containers if that is flat. -/
theorem depth_encode (type : PayloadType) {p : type.Value} {n : Nat}
    (inside : (type.free p).depth ≤ n + 1) : (encode p).depth ≤ n + 2 := by
  cases type with
  | completed | userEvent | internalEvent | trigger | task | dag =>
    exact Json.depth_ofMembers_le (by
      simpa [free, Json.depth, Json.depth_ofOption, Json.depth_ofTexts, Json.depth_ofList, Json.ofNat]
        using inside)
  | failed | cancelled | stop | monitoring | notice =>
    exact Json.depth_ofMembers_le (by simp [Json.depth, Json.depth_ofOption, Json.depth_ofList])

/-- What is read of a payload leaves room for the payload around its free value. -/
theorem depth_free (type : PayloadType) {p q : type.Value}
    (read : Codec.ofBytes? (Codec.toBytes p) = some q) : (type.free p).depth ≤ 126 := by
  rw [Codec.ofBytes?_toBytes] at read
  refine Nat.le_of_lt_succ ?_
  cases type with
  | completed => exact CompletedPayload.depth_lt_of_read read
  | userEvent => exact UserEventPayload.depth_lt_of_read read
  | internalEvent => exact InternalEventPayload.depth_lt_of_read read
  | trigger => exact TriggerPayload.depth_lt_of_read read
  | task => exact Task.depth_lt_of_read read
  | dag => exact Dag.depth_lt_of_read read
  | failed | cancelled | stop | monitoring | notice => exact Nat.succ_pos _

/-- A payload without doubles is read back if it is nested in 127 containers at most, and is not read at
all otherwise. -/
theorem ofBytes?_toBytes (type : PayloadType) {p : type.Value} (fits : type.Fits p)
    (plain : (type.free p).DoubleFree) :
    (Codec.ofBytes? (Codec.toBytes p) : Option type.Value) =
      if (encode p).depth ≤ 127 then some p else none := by
  split
  · rename_i shallow
    exact Codec.ofBytes?_readsBack (type.readsBack fits plain) (Nat.lt_succ_of_le shallow)
  · rename_i deep
    cases read : (Codec.ofBytes? (Codec.toBytes p) : Option type.Value) with
    | none => rfl
    | some q => exact absurd (type.depth_encode (type.depth_free read)) deep

/-- Of a list of payloads those are read that are nested in 127 containers at most. -/
theorem decodePayloads_toBytes (type : PayloadType) {ps : List type.Value}
    (fits : ∀ p ∈ ps, type.Fits p) (plain : ∀ p ∈ ps, (type.free p).DoubleFree) :
    decodePayloads type.Value (ps.map Codec.toBytes) = ps.filter fun p => decide ((encode p).depth ≤ 127) := by
  rw [decodePayloads, List.filterMap_map, ← List.filterMap_eq_filter]
  refine List.filterMap_congr fun p member => ?_
  exact (type.ofBytes?_toBytes (fits p member) (plain p member)).trans (by simp [Option.guard])

end PayloadType

/-- An order to cancel is read as it was written, as long as its numbers fit. -/
theorem CancelledPayload.ofBytes?_eq {p : CancelledPayload} (id : FitsInt64 p.taskId)
    (retry : FitsInt32 p.retryCount) : Codec.ofBytes? (Codec.toBytes p) = some p := by
  have shallow : (encode p).depth ≤ 127 := PayloadType.cancelled.depth_encode (Nat.zero_le 126)
  exact Codec.ofBytes?_readsBack (readsBack ⟨id, retry⟩) (Nat.lt_succ_of_le shallow)

end WorkflowEngine
