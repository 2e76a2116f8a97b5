import WorkflowEngine.Engine.ReadModel
import WorkflowEngine.Proofs.ReadModel.Coherent
import WorkflowEngine.Proofs.ReadModel.Dedup
import WorkflowEngine.Proofs.System.Ledger

/-!
The read model against the notices that it was given so far: its log holds the events of those, and it
has the rows of the tasks that they announce. The memory of events written last knows only what is in
the log.
-/

namespace WorkflowEngine

open ReadModel

def TaskEvent.report (e : TaskEvent) : Report := ⟨e.tenantId, e.taskId, e.retryCount, e.eventType⟩

/-- The numbers of the report fit the fields they are written to. -/
structure Report.Writable (r : Report) : Prop where
  task : -9223372036854775808 ≤ r.taskId ∧ r.taskId ≤ 9223372036854775807
  attempt : -2147483648 ≤ r.retryCount ∧ r.retryCount ≤ 2147483647

/-- The numbers of the task fit the fields that events of it have for them. -/
structure Task.Writable (t : Task) : Prop where
  task : -9223372036854775808 ≤ t.id ∧ t.id ≤ 9223372036854775807
  attempt : -2147483648 ≤ t.retryCount ∧ t.retryCount ≤ 2147483647

theorem Report.Ends.writable {r : Report} {t : Task} (ends : r.Ends t) (writable : t.Writable) :
    r.Writable :=
  ⟨ends.task ▸ writable.task, ends.attempt ▸ writable.attempt⟩

namespace Notice

/-- The tasks that the message of the notice is read as. -/
def read : Notice → List Task
  | tasks tenant ts =>
    (decodePayloads Task (message (.tasks tenant ts)).payloads).filter (·.tenantId == tenant)
  | dags .. | events .. => []

theorem read_created {n : Notice} {t : Task} (h : t ∈ n.read) : t.id ∈ n.created := by
  cases n with
  | tasks tenant ts =>
    obtain ⟨bytes, hb, decoded⟩ := List.mem_filterMap.mp (List.mem_filter.mp h).1
    obtain ⟨u, hu, rfl⟩ := List.mem_map.mp hb
    exact List.mem_map.mpr ⟨u, hu, (Task.ofBytes?_id decoded).symm⟩
  | dags tenant ds => cases h
  | events tenant ps => cases h

theorem reports_of_read {n : Notice} {t : Task} (h : t ∈ n.read) : n.reports = [] := by
  cases n with
  | tasks => rfl
  | dags => cases h
  | events => cases h

end Notice

structure Mirror (s : Store) (m : ReadModel) (keys : List String) (ns : List Notice)
    (delivered : Nat) : Prop where
  coherent : m.Coherent
  bound : delivered ≤ ns.length
  implied : ∀ e ∈ m.events, e.status = e.eventType.status
  logged : ∀ e ∈ m.events, ∃ k n, k ≤ delivered ∧ ns[k]? = some n ∧ e.report ∈ n.reports
  dated : ∀ e ∈ m.events, ∃ t ∈ s.tasks, t.id = e.taskId ∧ t.insertedAt = e.taskInsertedAt
  heard : ∀ k n, k < delivered → ns[k]? = some n → ∀ r ∈ n.reports, r.Writable →
    ∃ e ∈ m.events, e.taskId = r.taskId ∧ e.mark = r.mark
  rowed : ∀ k n, k < delivered → ns[k]? = some n → ∀ t ∈ n.read, ∃ row, m.task? t.id = some row
  remembered : ∀ key ∈ keys, ∃ e ∈ m.events, e.dedupKey = key

namespace Mirror

variable {s s' : Store} {m m' : ReadModel} {keys keys' : List String} {ns more : List Notice}
  {d k : Nat} {n : Notice} {e : TaskEvent} {ts : List Task}

theorem announced (mirror : Mirror s m keys ns d) (announced : Announced s s' more) :
    Mirror s' m keys (ns ++ more) d := by
  have old : ∀ {k : Nat} {n : Notice}, k < d → (ns ++ more)[k]? = some n → ns[k]? = some n := by
    intro k n earlier here
    rwa [List.getElem?_append_left (Nat.lt_of_lt_of_le earlier mirror.bound)] at here
  refine ⟨mirror.coherent, ?_, mirror.implied, ?_, ?_, ?_, ?_, mirror.remembered⟩
  · rw [List.length_append]
    exact Nat.le_add_right_of_le mirror.bound
  · intro e he
    obtain ⟨k, n, le, here, told⟩ := mirror.logged e he
    refine ⟨k, n, le, ?_, told⟩
    rw [List.getElem?_append_left (List.getElem?_eq_some_iff.mp here).1, here]
  · intro e he
    obtain ⟨t, ht, id, moment⟩ := mirror.dated e he
    obtain ⟨u, hu, ages⟩ := announced.told.kept t ht
    exact ⟨u, hu, ages.id.trans id, ages.insertedAt.trans moment⟩
  · exact fun k n earlier here => mirror.heard k n earlier (old earlier here)
  · exact fun k n earlier here => mirror.rowed k n earlier (old earlier here)

theorem folded (mirror : Mirror s m keys ns d) (coherent : m'.Coherent) (grows : m.Grows m')
    (log : m'.events = m.events) : Mirror s m' keys ns d := by
  refine ⟨coherent, mirror.bound, log ▸ mirror.implied, log ▸ mirror.logged, log ▸ mirror.dated,
    log ▸ mirror.heard, ?_, log ▸ mirror.remembered⟩
  intro k n earlier here t ht
  obtain ⟨row, found⟩ := mirror.rowed k n earlier here t ht
  obtain ⟨row', found', _⟩ := grows.rows t.id row found
  exact ⟨row', found'⟩

/-- A message is done with once its events are in the log and its tasks have rows. -/
theorem advance (mirror : Mirror s m keys ns d) (here : ns[k]? = some n) (le : k ≤ d)
    (heard : ∀ r ∈ n.reports, r.Writable → ∃ e ∈ m.events, e.taskId = r.taskId ∧ e.mark = r.mark)
    (rowed : ∀ t ∈ n.read, ∃ row, m.task? t.id = some row) :
    Mirror s m keys ns (max d (k + 1)) := by
  have reached : d ≤ max d (k + 1) := Nat.le_max_left _ _
  have earlier : ∀ {j : Nat} {n' : Notice}, j < max d (k + 1) → ns[j]? = some n' → j < d ∨ n' = n := by
    intro j n' before here'
    rcases Nat.lt_or_ge j d with less | more
    · exact Or.inl less
    · have same : j = k := by omega
      subst same
      exact Or.inr (Option.some.inj (here'.symm.trans here))
  refine ⟨mirror.coherent, ?_, mirror.implied, ?_, mirror.dated, ?_, ?_, mirror.remembered⟩
  · exact Nat.max_le.mpr ⟨mirror.bound, (List.getElem?_eq_some_iff.mp here).1⟩
  · intro e he
    obtain ⟨j, n', le', here', told⟩ := mirror.logged e he
    exact ⟨j, n', Nat.le_trans le' reached, here', told⟩
  · intro j n' before here'
    rcases earlier before here' with less | rfl
    · exact mirror.heard j n' less here'
    · exact heard
  · intro j n' before here'
    rcases earlier before here' with less | rfl
    · exact mirror.rowed j n' less here'
    · exact rowed

/-! ### Rows -/

/-- Nothing was told yet of a task that is announced now and has no row. -/
theorem untold (mirror : Mirror s m keys ns d) (ledger : Ledger s ns) (here : ns[k]? = some n)
    (le : k ≤ d) {t : Task} (read : t ∈ n.read) (missing : m.task? t.id = none) :
    ∀ e ∈ m.events, e.taskId ≠ t.id := by
  intro e he same
  obtain ⟨j, n', before, here', told⟩ := mirror.logged e he
  have first : k ≤ j :=
    ledger.announced_first here' here (Notice.read_created read) (Or.inr ⟨_, told, same⟩)
  rcases Nat.lt_or_eq_of_le le with less | last
  · obtain ⟨row, found⟩ := mirror.rowed k n less here t read
    rw [missing] at found
    cases found
  · have same : j = k := Nat.le_antisymm (last ▸ before) first
    subst same
    cases here'.symm.trans here
    rw [Notice.reports_of_read read] at told
    cases told

theorem addTasks (mirror : Mirror s m keys ns d) (ledger : Ledger s ns) (here : ns[k]? = some n)
    (le : k ≤ d) (read : ∀ t ∈ ts, t ∈ n.read) :
    Mirror s (ts.foldl addTask m) keys ns d ∧ m.Grows (ts.foldl addTask m) ∧
      (∀ t ∈ ts, ∃ row, (ts.foldl addTask m).task? t.id = some row) ∧
        ∀ i row, (ts.foldl addTask m).task? i = some row → row.mark = unmarked ∨ m.task? i = some row := by
  induction ts generalizing m with
  | nil => exact ⟨mirror, .refl m, fun _ h => absurd h List.not_mem_nil, fun _ _ => Or.inr⟩
  | cons t rest ih =>
    have added := addTask_coherent mirror.coherent
      (mirror.untold ledger here le (read t List.mem_cons_self))
    have first := mirror.folded added (addTask_grows m t) (addTask_same m t).1
    obtain ⟨last, grows, rows, origin⟩ := ih first fun t' ht' => read t' (List.mem_cons_of_mem _ ht')
    refine ⟨last, (addTask_grows m t).trans grows, ?_, ?_⟩
    · intro t' ht'
      rcases List.mem_cons.mp ht' with rfl | later
      · obtain ⟨row, found⟩ : ∃ row, (m.addTask t').task? t'.id = some row := by
          rw [addTask_task?]
          cases known : m.task? t'.id with
          | none => exact ⟨_, if_pos ⟨rfl, rfl⟩⟩
          | some row => exact ⟨row, if_neg (fun both => nomatch both.2)⟩
        obtain ⟨row', found', _⟩ := grows.rows _ row found
        exact ⟨row', found'⟩
      · exact rows t' later
    · intro i row h
      refine (origin i row h).elim Or.inl fun before => ?_
      rw [addTask_task?] at before
      split at before
      · cases before
        exact Or.inl rfl
      · exact Or.inr before

/-! ### Events -/

/-- Events of a notice may be logged, whichever of them. -/
theorem insert (mirror : Mirror s m keys ns d) (ledger : Ledger s ns) (here : ns[k]? = some n)
    (le : k ≤ d) (now : Instant) {tenant : TenantId} {fresh : List TaskEvent}
    (told : ∀ e ∈ fresh, e.tenantId = tenant ∧ e.status = e.eventType.status ∧ e.report ∈ n.reports)
    (dated : ∀ e ∈ fresh, ∃ t ∈ s.tasks, t.id = e.taskId ∧ t.insertedAt = e.taskInsertedAt)
    (known : ∀ key ∈ keys', key ∈ keys ∨ ∃ e ∈ fresh, e.dedupKey = key) :
    Mirror s (m.insertEvents now tenant fresh) keys' ns d ∧
      ∀ e ∈ m.events ++ fresh, e ∈ (m.insertEvents now tenant fresh).events := by
  have own : fresh.filter (·.tenantId == tenant) = fresh :=
    List.filter_eq_self.mpr fun e he => beq_iff_eq.mpr (told e he).1
  have log : (m.insertEvents now tenant fresh).events = m.events ++ fresh :=
    congrArg (m.events ++ ·) own
  have dates : ∀ e ∈ m.events ++ fresh, ∃ t ∈ s.tasks, t.id = e.taskId ∧ t.insertedAt = e.taskInsertedAt :=
    fun e he => (List.mem_append.mp he).elim (mirror.dated e) (dated e)
  refine ⟨⟨?_, mirror.bound, ?_, ?_, ?_, ?_, mirror.rowed, ?_⟩, fun e he => log ▸ he⟩
  · refine insertEvents_coherent mirror.coherent fun e he e' he' same => ?_
    obtain ⟨t, ht, id, moment⟩ := dated e he
    obtain ⟨t', ht', id', moment'⟩ := dates e' he'
    have one := ledger.sound.ordered.eq_of_id ht ht' (id.trans (same.symm.trans id'.symm))
    rw [← moment, ← moment', one]
  · rw [log]
    exact fun e he => (List.mem_append.mp he).elim (mirror.implied e) fun new => (told e new).2.1
  · rw [log]
    intro e he
    rcases List.mem_append.mp he with old | new
    · exact mirror.logged e old
    · exact ⟨k, n, le, here, (told e new).2.2⟩
  · rw [log]
    exact dates
  · rw [log]
    intro j n' before here' r hr fits
    obtain ⟨e, he, same⟩ := mirror.heard j n' before here' r hr fits
    exact ⟨e, List.mem_append_left _ he, same⟩
  · rw [log]
    intro key hkey
    rcases known key hkey with old | ⟨e, he, same⟩
    · obtain ⟨e, he, same⟩ := mirror.remembered key old
      exact ⟨e, List.mem_append_left _ he, same⟩
    · exact ⟨e, List.mem_append_right _ he, same⟩

end Mirror

end WorkflowEngine
