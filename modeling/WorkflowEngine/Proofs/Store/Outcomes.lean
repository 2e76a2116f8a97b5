import WorkflowEngine.Proofs.Store.Operation
import WorkflowEngine.Proofs.Task.Outcome

/-!
What there is to announce of the outcomes of tasks. A log of outcomes is faithful to a store if it has
the outcome of every task that has ended, once, and nothing else. Every operation keeps it so by adding
what it reports: a task is released only when it ends, and it ends only once.
-/

namespace WorkflowEngine

open Fallible Store

/-- Announced outcomes, from the first to the last, each with the external id of its task. -/
abbrev OutcomeLog := List (Outcome × ExternalId)

/-- What the log has of one task. -/
def OutcomeLog.of (log : OutcomeLog) (id : ExternalId) : List Outcome :=
  (log.filter (·.2 == id)).map (·.1)

/-- What there is to announce of a task. -/
def Task.news (t : Task) : OutcomeLog := t.state.outcome?.toList.map (·, t.externalId.asRead)

/-- What there is to announce of an attempt that has ended. -/
def ReleasedTask.news (o : Outcome) (t : ReleasedTask) : Outcome × ExternalId := (o, t.externalId.asRead)

namespace OutcomeLog

variable {log more : OutcomeLog} {id : ExternalId}

theorem of_append : OutcomeLog.of (log ++ more) id = log.of id ++ more.of id := by
  simp [OutcomeLog.of]

theorem mem_of {o : Outcome} : o ∈ log.of id ↔ (o, id) ∈ log := by
  simp [OutcomeLog.of]

theorem of_eq_nil (absent : ∀ entry ∈ log, entry.2 ≠ id) : log.of id = [] := by
  rw [OutcomeLog.of, List.map_eq_nil_iff, List.filter_eq_nil_iff]
  intro entry member
  simpa using absent entry member

theorem of_news {t : Task} (fits : t.externalId.value < 2 ^ 128) :
    OutcomeLog.of t.news t.externalId = t.state.outcome?.toList := by
  rw [Task.news, Identifier.asRead_eq fits]
  cases t.state.outcome? <;> simp [OutcomeLog.of]

theorem mem_news {t : Task} {entry : Outcome × ExternalId} (h : entry ∈ t.news) :
    entry.2 = t.externalId.asRead := by
  obtain ⟨_, _, rfl⟩ := List.mem_map.mp h
  rfl

end OutcomeLog

namespace Store

variable {s s' s'' : Store} {t u : Task} {tenant : TenantId} {now : Instant}
  {log news later : OutcomeLog}

/-- The log has the outcome of every task that has ended, and nothing else. The tasks can be told apart
by their external ids as they are written. -/
structure Faithful (log : OutcomeLog) (s : Store) : Prop where
  distinct : (s.tasks.map (·.externalId)).Nodup
  fits : ∀ t ∈ s.tasks, t.externalId.value < 2 ^ 128
  told : ∀ t ∈ s.tasks, log.of t.externalId = t.state.outcome?.toList
  known : ∀ entry ∈ log, ∃ t ∈ s.tasks, t.externalId = entry.2

theorem faithful_empty (internalRetries : Int) : Faithful [] { internalRetries } :=
  ⟨List.nodup_nil, fun _ h => absurd h List.not_mem_nil, fun _ h => absurd h List.not_mem_nil,
    fun _ h => absurd h List.not_mem_nil⟩

theorem Faithful.eq_of_externalId (faithful : Faithful log s) (ht : t ∈ s.tasks) (hu : u ∈ s.tasks)
    (same : t.externalId = u.externalId) : t = u :=
  List.inj_on_of_nodup_map faithful.distinct ht hu same

/-- What was announced of a task is how it ended. -/
theorem Faithful.ended {o : Outcome} (faithful : Faithful log s) (ht : t ∈ s.tasks)
    (announced : (o, t.externalId) ∈ log) : t.state.outcome? = some o := by
  rw [← OutcomeLog.mem_of, faithful.told t ht] at announced
  exact Option.mem_toList.mp announced

/-- With the news the log is faithful to the changed store, whatever it had before. -/
def Heard (s s' : Store) (news : OutcomeLog) : Prop :=
  ∀ log, Faithful log s → Faithful (log ++ news) s'

theorem Heard.same (tasks : s'.tasks = s.tasks) : Heard s s' [] := by
  intro log faithful
  rw [List.append_nil]
  refine ⟨?_, ?_, ?_, ?_⟩ <;> rw [tasks]
  · exact faithful.distinct
  · exact faithful.fits
  · exact faithful.told
  · exact faithful.known

theorem Heard.trans (first : Heard s s' news) (second : Heard s' s'' later) :
    Heard s s'' (news ++ later) := by
  intro log faithful
  rw [← List.append_assoc]
  exact second _ (first log faithful)

/-- A task that had not ended has changed, and the news tell its outcome if it has one now. -/
theorem Heard.change (ordered : s.Ordered) (ht : t ∈ s.tasks) (live : t.state.isTerminal = false)
    (tasks : s'.tasks = (s.setTask u).tasks) (id : u.id = t.id)
    (externalId : u.externalId = t.externalId) : Heard s s' u.news := by
  intro log faithful
  have here : u ∈ s'.tasks := by
    rw [tasks, mem_setTask]
    exact Or.inl ⟨rfl, t, ht, id.symm⟩
  have origin : ∀ v ∈ s'.tasks, v = u ∨ (v ∈ s.tasks ∧ v.id ≠ u.id) := by
    intro v hv
    rw [tasks, mem_setTask] at hv
    exact hv.imp_left And.left
  have fits : u.externalId.value < 2 ^ 128 := externalId ▸ faithful.fits t ht
  have silent : log.of u.externalId = [] := by
    rw [externalId, faithful.told t ht, TaskState.outcome?_live live]
    rfl
  -- What was logged of the other tasks stands, and of this one nothing had been logged.
  refine ⟨?_, ?_, ?_, ?_⟩
  · have same : s'.tasks.map (·.externalId) = s.tasks.map (·.externalId) := by
      rw [tasks, setTask, List.map_map]
      apply List.map_congr_left
      intro v hv
      by_cases mine : v.id = u.id
      · rw [Function.comp_apply, if_pos (beq_iff_eq.mpr mine), externalId,
          ordered.eq_of_id hv ht (mine.trans id)]
      · simp [mine]
    rw [same]
    exact faithful.distinct
  · intro v hv
    rcases origin v hv with rfl | ⟨old, _⟩
    · exact fits
    · exact faithful.fits v old
  · intro v hv
    rcases origin v hv with rfl | ⟨old, other⟩
    · rw [OutcomeLog.of_append, silent, OutcomeLog.of_news fits, List.nil_append]
    · rw [OutcomeLog.of_append, faithful.told v old, OutcomeLog.of_eq_nil, List.append_nil]
      intro entry member same
      rw [OutcomeLog.mem_news member, Identifier.asRead_eq fits, externalId] at same
      apply other
      rw [id, faithful.eq_of_externalId ht old same]
  · intro entry member
    rcases List.mem_append.mp member with old | new
    · obtain ⟨v, hv, same⟩ := faithful.known entry old
      by_cases mine : v.id = u.id
      · refine ⟨u, here, ?_⟩
        rw [externalId, ← ordered.eq_of_id hv ht (mine.trans id), same]
      · refine ⟨v, ?_, same⟩
        rw [tasks, mem_setTask]
        exact Or.inr ⟨hv, mine⟩
    · exact ⟨u, here, by rw [OutcomeLog.mem_news new, Identifier.asRead_eq fits]⟩

/-! ### Attempts -/

/-- A task that ends is released with its outcome. -/
theorem finish_heard {a : Attempt} {o : Outcome} (sound : s.Sound)
    (found : s.accepted? tenant a = some t) (id : u.id = t.id)
    (externalId : u.externalId = t.externalId) (outcome : u.state.outcome? = some o) :
    Heard s (s.finish u).2 [(s.finish u).1.news o] := by
  obtain ⟨here, _, _, live⟩ := accepted?_eq_some found
  have heard : Heard s (s.finish u).2 u.news :=
    .change sound.ordered (mem_of_task? here).1 live rfl id externalId
  rwa [Task.news, outcome] at heard

theorem Ending.heard {a : Attempt} {state : TaskState} {o : Outcome}
    {p : Option ReleasedTask × Store} (ending : Ending s tenant a state p) (sound : s.Sound)
    (outcome : state.outcome? = some o) : Heard s p.2 (p.1.toList.map (·.news o)) := by
  cases ending with
  | passed => exact .same rfl
  | ended found => exact finish_heard sound found rfl rfl outcome

theorem endEach_heard {state : TaskState} {o : Outcome}
    {one : Store → Attempt → Option ReleasedTask × Store}
    (endings : ∀ s a, Ending s tenant a state (one s a)) (terminal : state.isTerminal = true)
    (outcome : state.outcome? = some o) (sound : s.Sound) (attempts : List Attempt) :
    Heard s (s.endEach one attempts).2 ((s.endEach one attempts).1.map (·.news o)) := by
  induction attempts generalizing s with
  | nil => exact .same rfl
  | cons a rest ih =>
    simp only [endEach, List.map_append]
    exact ((endings s a).heard sound outcome).trans (ih (((endings s a).quiet terminal).sound sound))

theorem complete_heard (sound : s.Sound) (attempts : List Attempt) :
    Heard s (s.complete tenant attempts).2
      ((s.complete tenant attempts).1.map (·.news .completed)) := by
  rw [complete_eq]
  exact endEach_heard (fun s a => s.completeOne_ending tenant a) rfl rfl sound attempts

theorem cancel_heard (sound : s.Sound) (attempts : List Attempt) :
    Heard s (s.cancel tenant attempts).2
      ((s.cancel tenant attempts).1.map (·.news .cancelled)) := by
  rw [cancel_eq]
  exact endEach_heard (fun s a => s.cancelOne_ending tenant a) rfl rfl sound attempts

theorem nextAttempt_same {isAppError : Bool} (h : nextAttempt t isAppError now = .ok u) :
    u.id = t.id ∧ u.externalId = t.externalId ∧ u.state = .queued := by
  obtain ⟨deadline, _, h⟩ := bind_ok h
  cases h
  exact ⟨rfl, rfl, rfl⟩

/-- Only an attempt that fails for good is news; one that is retried is not. -/
theorem failOne_heard {f : Failure} {outcome : FailureOutcome} (sound : s.Sound)
    (r : FailureResult) (h : s.failOne now tenant f = .ok (outcome, s')) :
    ∃ news, Heard s s' news ∧ (FailureResult.add r outcome).released.map (·.news .failed) =
      r.released.map (·.news .failed) ++ news := by
  unfold failOne at h
  split at h
  · cases h
    exact ⟨[], .same rfl, (List.append_nil _).symm⟩
  · rename_i t found
    obtain ⟨here, _, _, live⟩ := accepted?_eq_some found
    split at h
    · obtain ⟨next, again, h⟩ := bind_ok h
      obtain ⟨id, externalId, waits⟩ := nextAttempt_same again
      cases h
      have heard : Heard s (((s.setTask next).release t.id).enqueue next) next.news :=
        .change sound.ordered (mem_of_task? here).1 live (by rw [enqueue_tasks]; rfl) id externalId
      rw [Task.news, waits] at heard
      exact ⟨[], heard, (List.append_nil _).symm⟩
    · cases h
      exact ⟨_, finish_heard sound found rfl rfl rfl, List.map_append⟩

theorem fail_heard {failures : List Failure} {result : FailureResult} (sound : s.Sound)
    (h : s.fail now tenant failures = .ok (result, s')) :
    Heard s s' (result.released.map (·.news .failed)) := by
  have kept := foldlM_ok (P := fun p : FailureResult × Store => p.2.Sound ∧
    Heard s p.2 (p.1.released.map (·.news .failed))) h ⟨sound, .same rfl⟩ ?_
  · exact kept.2
  · rintro ⟨r, s₁⟩ f - ⟨r', s₂⟩ ⟨sound₁, heard⟩ step
    obtain ⟨⟨outcome, s₃⟩, failed, step⟩ := bind_ok step
    cases step
    obtain ⟨news, heard', released⟩ := failOne_heard sound₁ r failed
    refine ⟨(failOne_quiet failed).sound sound₁, ?_⟩
    rw [released]
    exact heard.trans heard'

theorem assignOne_heard {a : Assignment} {r : Option Attempt} (sound : s.Sound)
    (h : s.assignOne now tenant a = .ok (r, s')) : Heard s s' [] := by
  simp only [assignOne] at h
  split at h
  · cases h
    exact .same rfl
  · rename_i t found
    obtain ⟨here, _, _, live⟩ := accepted?_eq_some (Option.filter_eq_some_iff.mp found).1
    obtain ⟨deadline, _, h⟩ := bind_ok h
    cases h
    have here := (mem_of_task? here).1
    let u : Task := { t with
      state := .running
      workerId := some a.worker
      scheduleTimeoutAt := none
      timeoutAt := some deadline }
    exact .change (u := u) sound.ordered here live rfl rfl rfl

theorem assign_heard {assignments : List Assignment} {r : List Attempt} (sound : s.Sound)
    (h : s.assign now tenant assignments = .ok (r, s')) : Heard s s' [] := by
  induction assignments generalizing s r with
  | nil =>
    cases h
    exact .same rfl
  | cons a rest ih =>
    obtain ⟨⟨first, s₁⟩, assigned, h⟩ := bind_ok h
    obtain ⟨⟨others, s₂⟩, later, h⟩ := bind_ok h
    cases h
    exact (assignOne_heard sound assigned).trans (ih ((assignOne_quiet assigned).sound sound) later)

/-! ### Creation -/

/-- An identifier of 128 bits that no task has, and that was not named. -/
structure Unused (s : Store) (named : List ExternalId) (id : ExternalId) : Prop where
  fits : id.value < 2 ^ 128
  unnamed : id ∉ named
  untaken : ∀ t ∈ s.tasks, t.externalId ≠ id

/-- The identifiers drawn on the way are new ones. -/
def DrawsUnused (s : Store) (named : List ExternalId) (ids ids' : IdSource) : Prop :=
  ∀ k, ids.drawn < k → k ≤ ids'.drawn → s.Unused named (.generated k)

variable {c c₁ c₂ : Creation} {named : List ExternalId} {ids ids' ids₁ : IdSource}

theorem DrawsUnused.between {ids₂ : IdSource} (unused : DrawsUnused s named ids ids')
    (since : ids.drawn ≤ ids₁.drawn) (upTo : ids₂.drawn ≤ ids'.drawn) :
    DrawsUnused s named ids₁ ids₂ :=
  fun k later earlier =>
    unused k (Nat.lt_of_le_of_lt since later) (Nat.le_trans earlier upTo)

theorem isTaken_eq_false {id : ExternalId} (free : s.isTaken id = false) (ht : t ∈ s.tasks) :
    t.externalId ≠ id := by
  rw [isTaken, Bool.or_eq_false_iff, List.any_eq_false] at free
  simpa using free.1 t ht

/-- No two tasks are created under the same external id. -/
theorem creates_distinct (made : Creation.Creates tenant named c c₁)
    (unused : DrawsUnused c.store named c.ids c₁.ids)
    (distinct : (c.store.tasks.map (·.externalId)).Nodup) :
    (c₁.store.tasks.map (·.externalId)).Nodup := by
  induction made with
  | none => exact distinct
  | other _ alike drawn _ ih =>
    rw [alike.tasks]
    exact ih (unused.between (Nat.le_refl _) drawn)
  | @task c₁ c₂ w step n now t before source inserted drawn tasks id ih =>
    obtain ⟨created, _⟩ := insertTask_ok source.free inserted
    obtain ⟨new, stored, _, _, born⟩ := before.tasks
    have fresh : ∀ v ∈ c₁.store.tasks, v.externalId ≠ t.externalId := by
      intro v hv same
      rw [created.externalId] at same
      -- An id that was named was free; one that was drawn is neither old, nor named, nor drawn before.
      rcases id with ⟨free, _⟩ | ⟨more, drew⟩
      · exact isTaken_eq_false free hv same
      · have since := Nat.lt_of_le_of_lt before.drawn more
        rw [drew] at same
        rw [stored] at hv
        rcases List.mem_append.mp hv with old | young
        · exact (unused _ since (Nat.le_refl _)).untaken v old same
        · rcases (born v young).externalId with given | ⟨k, _, upTo, earlier⟩
          · rw [same] at given
            exact (unused _ since (Nat.le_refl _)).unnamed given
          · have equal := Identifier.generated_injective (same.symm.trans earlier)
            omega
    rw [(insertTask_tasks source.free inserted).1, List.map_append]
    refine List.nodup_append.mpr ⟨ih (unused.between (Nat.le_refl _) drawn), by simp, ?_⟩
    intro x hx y hy
    obtain ⟨v, hv, rfl⟩ := List.mem_map.mp hx
    rw [List.map_singleton, List.mem_singleton] at hy
    rw [hy]
    exact fresh v hv

theorem news_of_new {new : List Task} (distinct : (new.map (·.externalId)).Nodup)
    (fits : ∀ t ∈ new, t.externalId.value < 2 ^ 128) (ht : t ∈ new) :
    OutcomeLog.of (new.flatMap Task.news) t.externalId = t.state.outcome?.toList := by
  induction new with
  | nil => cases ht
  | cons u rest ih =>
    obtain ⟨fresh, distinct⟩ := List.nodup_cons.mp distinct
    have fitsRest := fun v hv => fits v (List.mem_cons_of_mem u hv)
    rw [List.flatMap_cons, OutcomeLog.of_append]
    rcases List.mem_cons.mp ht with rfl | later
    · rw [OutcomeLog.of_news (fits t List.mem_cons_self), OutcomeLog.of_eq_nil, List.append_nil]
      intro entry member same
      obtain ⟨v, hv, news⟩ := List.mem_flatMap.mp member
      rw [OutcomeLog.mem_news news, Identifier.asRead_eq (fitsRest v hv)] at same
      exact fresh (List.mem_map.mpr ⟨v, hv, same⟩)
    · rw [ih distinct fitsRest later, OutcomeLog.of_eq_nil, List.nil_append]
      intro entry member same
      rw [OutcomeLog.mem_news member, Identifier.asRead_eq (fits u List.mem_cons_self)] at same
      exact fresh (List.mem_map.mpr ⟨t, later, same.symm⟩)

theorem creates_heard (made : Creation.Creates tenant named c c₁)
    (unused : DrawsUnused c.store named c.ids c₁.ids)
    (given : ∀ id ∈ named, id.value < 2 ^ 128) :
    ∃ new, c₁.tasks = c.tasks ++ new ∧ Heard c.store c₁.store (new.flatMap Task.news) ∧
      ∀ t ∈ new, t.state = t.initialState.state := by
  obtain ⟨new, stored, listed, _, born⟩ := made.tasks
  refine ⟨new, listed, ?_, fun t ht => (born t ht).state⟩
  intro log faithful
  have distinct := creates_distinct made unused faithful.distinct
  have apart := distinct
  rw [stored, List.map_append] at apart
  obtain ⟨_, newDistinct, apart⟩ := List.nodup_append.mp apart
  have young : ∀ t ∈ new, t.externalId.value < 2 ^ 128 := by
    intro t ht
    rcases (born t ht).externalId with member | ⟨k, since, upTo, drew⟩
    · exact given _ member
    · rw [drew]
      exact (unused k since upTo).fits
  have other : ∀ t ∈ c.store.tasks, ∀ u ∈ new, t.externalId ≠ u.externalId := fun t ht u hu =>
    apart _ (List.mem_map_of_mem ht) _ (List.mem_map_of_mem hu)
  refine ⟨distinct, ?_, ?_, ?_⟩
  · intro t ht
    rw [stored] at ht
    exact (List.mem_append.mp ht).elim (faithful.fits t) (young t)
  · intro t ht
    rw [stored] at ht
    rw [OutcomeLog.of_append]
    rcases List.mem_append.mp ht with old | fresh
    · rw [faithful.told t old, OutcomeLog.of_eq_nil, List.append_nil]
      intro entry member same
      obtain ⟨u, hu, news⟩ := List.mem_flatMap.mp member
      rw [OutcomeLog.mem_news news, Identifier.asRead_eq (young u hu)] at same
      exact other t old u hu same.symm
    · -- All that was logged is of tasks of the store before.
      have unheard : log.of t.externalId = [] := by
        apply OutcomeLog.of_eq_nil
        intro entry member same
        obtain ⟨u, hu, known⟩ := faithful.known entry member
        exact other u hu t fresh (known.trans same)
      rw [unheard, List.nil_append]
      exact news_of_new newDistinct young fresh
  · intro entry member
    rw [stored]
    rcases List.mem_append.mp member with old | new
    · obtain ⟨t, ht, same⟩ := faithful.known entry old
      exact ⟨t, List.mem_append_left _ ht, same⟩
    · obtain ⟨t, ht, news⟩ := List.mem_flatMap.mp new
      refine ⟨t, List.mem_append_right _ ht, ?_⟩
      rw [OutcomeLog.mem_news news, Identifier.asRead_eq (young t ht)]

end Store

end WorkflowEngine
