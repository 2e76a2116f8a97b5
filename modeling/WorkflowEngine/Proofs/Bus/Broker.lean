import WorkflowEngine.Bus.Broker
import WorkflowEngine.Proofs.Identifier

/-!
What is published to a queue: every message that is sent to one of its name, in order, unless sends to
it are refused.
-/

namespace WorkflowEngine

namespace QueueName

theorem text_ne {q r : QueueName} (last : q.text.toList.getLast? ≠ r.text.toList.getLast?) :
    q.text ≠ r.text :=
  fun same => last (by rw [same])

@[simp] theorem dispatcher_tasks (id : DispatcherId) : (dispatcher id).text ≠ tasks.text :=
  text_ne (by simp [text])

@[simp] theorem scheduler_tasks (partition : String) : (scheduler partition).text ≠ tasks.text :=
  text_ne (by simp [text])

@[simp] theorem dispatcher_readModel (id : DispatcherId) : (dispatcher id).text ≠ readModel.text :=
  text_ne (by simp [text])

@[simp] theorem scheduler_readModel (partition : String) : (scheduler partition).text ≠ readModel.text :=
  text_ne (by simp [text])

@[simp] theorem tasks_readModel : tasks.text ≠ readModel.text := by decide

@[simp] theorem readModel_tasks : readModel.text ≠ tasks.text := by decide

@[simp] theorem dispatcher_scheduler (id : DispatcherId) (partition : String) :
    (dispatcher id).text ≠ (scheduler partition).text :=
  text_ne (by simp [text])

/-- The dispatcher is known by 128 bits, as any identifier that was read. -/
def Fits : QueueName → Prop
  | .dispatcher id => id.value < 2 ^ 128
  | _ => True

/-- Queues have different names, whatever the partitions of the schedulers are called. -/
theorem text_injective {q r : QueueName} (fits : q.Fits) (fits' : r.Fits) (same : q.text = r.text) :
    q = r := by
  cases q with
  | tasks =>
    cases r with
    | tasks => rfl
    | readModel => cases tasks_readModel same
    | dispatcher id => cases dispatcher_tasks id same.symm
    | scheduler partition => cases scheduler_tasks partition same.symm
  | readModel =>
    cases r with
    | tasks => cases readModel_tasks same
    | readModel => rfl
    | dispatcher id => cases dispatcher_readModel id same.symm
    | scheduler partition => cases scheduler_readModel partition same.symm
  | dispatcher id =>
    cases r with
    | tasks => cases dispatcher_tasks id same
    | readModel => cases dispatcher_readModel id same
    | dispatcher id' =>
      have read := congrArg Identifier.parse? ((String.append_left_inj _).mp same)
      rw [Identifier.parse?_text, Identifier.parse?_text, Nat.mod_eq_of_lt fits,
        Nat.mod_eq_of_lt fits'] at read
      exact congrArg dispatcher (Option.some.inj read)
    | scheduler partition => cases dispatcher_scheduler id partition same
  | scheduler partition =>
    cases r with
    | tasks => cases scheduler_tasks partition same
    | readModel => cases scheduler_readModel partition same
    | dispatcher id => cases dispatcher_scheduler id partition same.symm
    | scheduler partition' => exact congrArg scheduler ((String.append_left_inj _).mp same)

end QueueName

theorem Queue.accept_record (q : Queue) (m : Message) :
    (q.accept m).name = q.name ∧ (q.accept m).published = q.published ++ [m] := by
  simp only [Queue.accept, Queue.deliver?]
  split
  · rename_i handed
    obtain ⟨_, _, rfl⟩ := Option.map_eq_some_iff.mp handed
    exact ⟨rfl, rfl⟩
  · split <;> exact ⟨rfl, rfl⟩

namespace Bus

variable {b : Bus}

theorem queue?_update {name other : String} {f : Queue → Queue} (keeps : ∀ q, (f q).name = q.name) :
    (b.update name f).queue? other =
      if other = name then some (f ((b.queue? name).getD { name })) else b.queue? other := by
  have replaced : ∀ queues : List Queue,
      (queues.map fun q => if q.name == name then f q else q).find? (·.name == other) =
        if other = name then (queues.find? (·.name == name)).map f
        else queues.find? (·.name == other) := by
    intro queues
    induction queues with
    | nil => simp
    | cons q rest ih =>
      rw [List.map_cons, List.find?_cons, List.find?_cons, List.find?_cons, ih]
      by_cases here : q.name = name
      · by_cases asked : other = name
        · simp [here, asked, keeps]
        · have apart : (name == other) = false := by simpa using Ne.symm asked
          simp [here, asked, keeps, apart]
      · have apart : (q.name == name) = false := by simpa using here
        by_cases asked : other = name
        · simp [apart, asked]
        · simp [apart, asked]
  unfold update queue?
  split
  · rename_i known
    rw [replaced]
    obtain ⟨q, hq, named⟩ := List.any_eq_true.mp known
    cases found : b.queues.find? (·.name == name) with
    | none => exact absurd named (List.find?_eq_none.mp found q hq)
    | some q' => rfl
  · rename_i unknown
    have missing : b.queues.find? (·.name == name) = none := by
      rw [List.find?_eq_none]
      exact fun q hq named => unknown (List.any_eq_true.mpr ⟨q, hq, named⟩)
    rw [List.find?_append]
    by_cases asked : other = name
    · simp [asked, missing, keeps]
    · simp [asked, keeps, Ne.symm asked]

theorem send_blocked (b : Bus) (q : QueueName) (m : Message) : (b.send q m).2.blocked = b.blocked := by
  simp only [send, update]
  split
  · rfl
  · dsimp only
    split <;> rfl

/-- A message that was sent is recorded under the name of its queue and no other. -/
theorem send_published (b : Bus) (q : QueueName) (m : Message) (record : QueueName) :
    (b.send q m).2.published record = b.published record ++
      if b.isBlocked record.text then [] else if q.text = record.text then [m] else [] := by
  by_cases refused : b.isBlocked q.text = true
  · have same : (b.send q m).2.published record = b.published record := by
      simp only [send, refused]
      rfl
    by_cases mine : q.text = record.text
    · rw [same, ← mine, if_pos refused, List.append_nil]
    · rw [same, if_neg mine, ite_self, List.append_nil]
  · have sent : (b.send q m).2 = b.update q.text (·.accept m) := by
      simp only [send, refused]
      rfl
    rw [sent]
    change (((b.update q.text (·.accept m)).queue? record.text).map (·.published)).getD [] = _
    rw [queue?_update fun q => (q.accept_record m).1]
    by_cases mine : q.text = record.text
    · rw [← mine, if_pos rfl, if_pos rfl, if_neg refused, Option.map_some, Option.getD_some,
        (Queue.accept_record _ m).2, published, ← mine]
      cases b.queue? q.text <;> rfl
    · rw [if_neg fun same => mine same.symm, if_neg mine, ite_self, List.append_nil]
      rfl

end Bus

end WorkflowEngine
