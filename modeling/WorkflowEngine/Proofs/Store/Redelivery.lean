import WorkflowEngine.Proofs.Store.Batches
import WorkflowEngine.Proofs.Store.Eviction
import WorkflowEngine.Proofs.Store.Growth

/-!
What happens when the same comes again. An attempt that was completed, cancelled or failed is passed over
from then on; an order that was carried out, or named a child that was started, is not carried out again;
and a step that has heard an announcement knows nothing new when it hears it again.
-/

namespace WorkflowEngine

open Fallible

namespace Store

variable {s s' : Store} {tenant : TenantId} {now : Instant} {a b : Attempt} {t : Task}

/-! ### Attempts -/

/-- Whatever is reported of the attempt changes nothing. -/
def PassesOver (s : Store) (tenant : TenantId) (a : Attempt) : Prop := s.accepted? tenant a = none

theorem Ordered.passesOver_iff (ordered : s.Ordered) : s.PassesOver tenant a ↔
    ∀ t ∈ s.tasks, t.tenantId = tenant → t.attempt = a → t.state.isTerminal = true := by
  constructor
  · rintro none t ht rfl rfl
    cases live : t.state.isTerminal with
    | true => rfl
    | false => cases none.symm.trans (ordered.accepted?_eq ht live)
  · intro ended
    refine Option.eq_none_iff_forall_ne_some.mpr fun t found => ?_
    obtain ⟨here, owner, attempt, live⟩ := accepted?_eq_some found
    rw [ended t (mem_of_task? here).1 owner attempt] at live
    cases live

/-- An attempt that was to end is passed over then, and so is every other that was before. -/
theorem Ending.passesOver {state : TaskState} {p : Option ReleasedTask × Store} (ordered : s.Ordered)
    (ordered' : p.2.Ordered) (ending : Ending s tenant a state p) (terminal : state.isTerminal = true)
    (before : b = a ∨ s.PassesOver tenant b) : p.2.PassesOver tenant b := by
  cases ending with
  | passed absent => exact before.elim (fun same => same ▸ absent) id
  | @ended t found schedule =>
    refine ordered'.passesOver_iff.mpr fun u hu owner attempt => ?_
    rcases mem_setTask.mp hu with ⟨rfl, -⟩ | ⟨old, other⟩
    · exact terminal
    · rcases before with rfl | past
      · have named : t.attempt = b := (accepted?_eq_some found).2.2.1
        exact absurd (congrArg Attempt.id (attempt.trans named.symm)) other
      · exact ordered.passesOver_iff.mp past u old owner attempt

section

variable {one : Store → Attempt → Option ReleasedTask × Store} {state : TaskState}
  (endings : ∀ s a, Ending s tenant a state (one s a))
include endings

theorem endEach_passesOver (terminal : state.isTerminal = true) (sound : s.Sound) {as : List Attempt}
    (listed : b ∈ as ∨ s.PassesOver tenant b) : (s.endEach one as).2.PassesOver tenant b := by
  -- Every ending keeps what is passed over, so it is enough that the attempt comes up once.
  induction as generalizing s with
  | nil => exact listed.resolve_left List.not_mem_nil
  | cons a rest ih =>
    have sound' := ((endings s a).quiet terminal).sound sound
    have first : b = a ∨ s.PassesOver tenant b → (one s a).2.PassesOver tenant b :=
      (endings s a).passesOver sound.ordered sound'.ordered terminal
    refine ih sound' ?_
    rcases listed with listed | past
    · exact (List.mem_cons.mp listed).symm.imp_right fun same => first (Or.inl same)
    · exact Or.inr (first (Or.inr past))

theorem endEach_nothing {as : List Attempt} (past : ∀ a ∈ as, s.PassesOver tenant a) :
    s.endEach one as = ([], s) := by
  induction as with
  | nil => rfl
  | cons a rest ih =>
    obtain ⟨first, later⟩ := List.forall_mem_cons.mp past
    have passed : one s a = (none, s) := by
      have ending := endings s a
      generalize one s a = p at ending
      cases ending with
      | passed => rfl
      | ended found => cases first.symm.trans found
    rw [endEach, passed, ih later]
    rfl

theorem endEach_again (terminal : state.isTerminal = true) (sound : s.Sound) (as : List Attempt) :
    (s.endEach one as).2.endEach one as = ([], (s.endEach one as).2) :=
  endEach_nothing endings fun _ ha => endEach_passesOver endings terminal sound (Or.inl ha)

end

theorem complete_repeated (sound : s.Sound) (as : List Attempt) :
    (s.complete tenant as).2.complete tenant as = ([], (s.complete tenant as).2) := by
  simp only [complete_eq]
  exact endEach_again (fun s a => s.completeOne_ending tenant a) rfl sound as

theorem cancel_repeated (sound : s.Sound) (as : List Attempt) :
    (s.cancel tenant as).2.cancel tenant as = ([], (s.cancel tenant as).2) := by
  simp only [cancel_eq]
  exact endEach_again (fun s a => s.cancelOne_ending tenant a) rfl sound as

/-! ### Failures -/

/-- The attempt is not newer than the one that its task has come to. -/
def HasComeTo (s : Store) (tenant : TenantId) (a : Attempt) : Prop :=
  ∀ t ∈ s.tasks, t.tenantId = tenant → t.id = a.id → a.retryCount ≤ t.retryCount

/-- What a failure does to the tasks: it is passed over, or the task of the attempt ends or comes to its
next attempt. -/
theorem failOne_tasks {f : Failure} {outcome : FailureOutcome}
    (h : s.failOne now tenant f = .ok (outcome, s')) : s.PassesOver tenant f.task ∧ s' = s ∨
      ∃ t u, s.accepted? tenant f.task = some t ∧ s'.tasks = (s.setTask u).tasks ∧
        u.id = t.id ∧ u.tenantId = t.tenantId ∧
        (u.retryCount = t.retryCount ∧ u.state.isTerminal = true ∨ u.retryCount = t.retryCount + 1) := by
  unfold failOne at h
  split at h
  · rename_i absent
    cases h
    exact Or.inl ⟨absent, rfl⟩
  · rename_i t found
    split at h
    · obtain ⟨next, again, h⟩ := bind_ok h
      obtain ⟨deadline, _, again⟩ := bind_ok again
      cases again
      cases h
      exact Or.inr ⟨t, _, found, enqueue_tasks, rfl, rfl, Or.inr rfl⟩
    · cases h
      exact Or.inr ⟨t, _, found, rfl, rfl, rfl, Or.inl ⟨rfl, rfl⟩⟩

theorem failOne_hasComeTo {f : Failure} {outcome : FailureOutcome} (sound : s.Sound)
    (h : s.failOne now tenant f = .ok (outcome, s')) (current : s.HasComeTo tenant b) :
    s'.HasComeTo tenant b := by
  rcases failOne_tasks h with ⟨-, rfl⟩ | ⟨t, u, found, tasks, id, owner, counts⟩
  · exact current
  · have ht := (accepted?_task found).1
    intro v hv mine same
    rw [tasks] at hv
    rcases mem_setTask.mp hv with ⟨rfl, -⟩ | ⟨old, -⟩
    · have before := current t ht (owner.symm.trans mine) (id.symm.trans same)
      omega
    · exact current v old mine same

/-- An attempt that has failed is passed over then: its task has ended or has come to a later one. -/
theorem failOne_passesOver {f : Failure} {outcome : FailureOutcome} (sound : s.Sound)
    (h : s.failOne now tenant f = .ok (outcome, s')) (current : s.HasComeTo tenant b)
    (before : b = f.task ∨ s.PassesOver tenant b) : s'.PassesOver tenant b := by
  have ordered' := ((failOne_quiet h).sound sound).ordered
  rcases failOne_tasks h with ⟨absent, rfl⟩ | ⟨t, u, found, tasks, id, owner, counts⟩
  · exact before.elim (fun same => same ▸ absent) fun past => past
  · obtain ⟨here, -, attempt, -⟩ := accepted?_eq_some found
    refine ordered'.passesOver_iff.mpr fun v hv mine named => ?_
    rw [tasks] at hv
    rcases mem_setTask.mp hv with ⟨rfl, -⟩ | ⟨old, other⟩
    · -- A later attempt of the task cannot be one that the task had come to before.
      rcases counts with ⟨-, ended⟩ | next
      · exact ended
      · subst named
        have before := current t (mem_of_task? here).1 (owner.symm.trans mine) id.symm
        change v.retryCount ≤ t.retryCount at before
        omega
    · rcases before with rfl | past
      · exact absurd ((congrArg Attempt.id (named.trans attempt.symm)).trans id.symm) other
      · exact sound.ordered.passesOver_iff.mp past v old mine named

theorem fail_nothing {failures : List Failure} (now : Instant)
    (past : ∀ f ∈ failures, s.PassesOver tenant f.task) :
    s.fail now tenant failures = .ok ({}, s) := by
  unfold fail
  induction failures with
  | nil => rfl
  | cons f rest ih =>
    obtain ⟨first, later⟩ := List.forall_mem_cons.mp past
    have passed : s.failOne now tenant f = .ok (.ignored, s) := by
      have absent : s.accepted? tenant f.task = none := first
      rw [failOne, absent]
    simp only [List.foldlM_cons, passed]
    exact ih later

/-- Failures that are reported once more, unless they are about attempts that were yet to come. -/
theorem fail_repeated {failures : List Failure} {result : FailureResult} (sound : s.Sound)
    (current : ∀ f ∈ failures, s.HasComeTo tenant f.task)
    (h : s.fail now tenant failures = .ok (result, s')) (later : Instant) :
    s'.fail later tenant failures = .ok ({}, s') := by
  refine fail_nothing later ?_
  refine fun f member => (foldlM_each (Q := fun f (p : FailureResult × Store) =>
    p.2.HasComeTo tenant f.task ∧ p.2.PassesOver tenant f.task)
    (P := fun p => p.2.Sound ∧ ∀ f ∈ failures, p.2.HasComeTo tenant f.task) h ⟨sound, current⟩ ?_
      f member).2
  rintro ⟨r, s₁⟩ f member ⟨r', s₂⟩ ⟨sound, current⟩ step
  obtain ⟨⟨outcome, s₃⟩, failed, step⟩ := bind_ok step
  cases step
  refine ⟨⟨(failOne_quiet failed).sound sound, ?_⟩, ⟨?_, ?_⟩, ?_⟩
  · exact fun g hg => failOne_hasComeTo sound failed (current g hg)
  · exact failOne_hasComeTo sound failed (current f member)
  · exact failOne_passesOver sound failed (current f member) (Or.inl rfl)
  · rintro g ⟨known, past⟩
    exact ⟨failOne_hasComeTo sound failed known,
      failOne_passesOver sound failed known (Or.inr past)⟩

/-! ### Orders -/

/-- The order has no effect: it names no workflow, a child that was started, or an id that is taken. -/
def Answered (s : Store) (tenant : TenantId) (r : RunRequest) : Prop :=
  s.workflow? tenant r.workflowName = none ∨ (∃ child ∈ s.children, r.child? = some child) ∨
    (r.child? = none ∧ s.isTaken r.externalId = true)

theorem Grows.answered {new : List Task} {runs : List DagRecord} {r : RunRequest}
    (grows : Grows s s' new runs) (answered : s.Answered tenant r) : s'.Answered tenant r := by
  refine answered.imp (grows.workflow? _).trans (Or.imp ?_ (And.imp_right grows.isTaken))
  rintro ⟨child, known, named⟩
  exact ⟨child, grows.children child known, named⟩

end Store

namespace Creation

open Store

variable {c c' : Creation} {tenant : TenantId} {now : Instant} {r : RunRequest}

theorem addRequest_answered (answered : c.store.Answered tenant r) (now : Instant) :
    c.addRequest tenant now r = .ok c := by
  unfold addRequest
  cases found : c.store.workflow? tenant r.workflowName with
  | none => rfl
  | some w =>
    rcases answered with unknown | ⟨child, known, named⟩ | ⟨alone, taken⟩
    · cases unknown.symm.trans found
    · simp [named, known]
    · simp [alone, addRun, taken]

theorem addRequests_answered {requests : List RunRequest} (now : Instant)
    (answered : ∀ r ∈ requests, c.store.Answered tenant r) :
    requests.foldlM (fun c r => c.addRequest tenant now r) c = .ok c := by
  induction requests with
  | nil => rfl
  | cons r rest ih =>
    obtain ⟨first, others⟩ := List.forall_mem_cons.mp answered
    rw [List.foldlM_cons, addRequest_answered first]
    exact ih others

theorem addRequest_answers (steps : ∀ w ∈ c.store.workflows, w.definition.steps ≠ [])
    (h : c.addRequest tenant now r = .ok c') :
    c'.store.Answered tenant r ∧ ∃ new runs, Grows c.store c'.store new runs := by
  unfold addRequest at h
  split at h
  · rename_i unknown
    cases h
    exact ⟨Or.inl unknown, [], [], .refl _⟩
  · rename_i w found
    have steps := steps w (workflow?_mem found).1
    split at h
    · rename_i alone
      rcases addRun_grows steps h with ⟨taken, rfl⟩ | ⟨-, new, runs, grows, run⟩
      · exact ⟨Or.inr (Or.inr ⟨alone, taken⟩), [], [], .refl _⟩
      · exact ⟨Or.inr (Or.inr ⟨alone, grows.isTaken_run run⟩), new, runs, grows⟩
    · rename_i child named
      split at h
      · rename_i known
        cases h
        exact ⟨Or.inr (Or.inl ⟨child, by simpa using known, named⟩), [], [], .refl _⟩
      · obtain ⟨c₁, added, h⟩ := bind_ok h
        cases h
        have grown : ∃ new runs, Grows c.store c₁.store new runs := by
          rcases addRun_grows steps added with ⟨-, rfl⟩ | ⟨-, new, runs, grows, -⟩
          · exact ⟨[], [], .refl _⟩
          · exact ⟨new, runs, grows⟩
        obtain ⟨new, runs, grows⟩ := grown
        refine ⟨Or.inr (Or.inl ⟨child, by simp, named⟩), new, runs, grows.partitions,
          grows.workflows, grows.tasks, grows.dags, fun known old => ?_⟩
        exact List.mem_append_left _ (grows.children known old)

end Creation

namespace Store

open Creation

variable {s : Store} {c : Creation} {tenant : TenantId} {now : Instant} {ids : IdSource}

/-- Orders that come once more start nothing. -/
theorem triggerRuns_repeated {requests : List RunRequest}
    (steps : ∀ w ∈ s.workflows, w.definition.steps ≠ [])
    (h : s.triggerRuns ids now tenant requests = .ok c) :
    (∃ new runs, Grows s c.store new runs) ∧ ∀ later ids',
      c.store.triggerRuns ids' later tenant requests =
        (fun _ => { store := c.store, ids := ids' }) <$> c.store.requirePartition later := by
  obtain ⟨_, _, h⟩ := bind_ok h
  let Grown (c' : Creation) : Prop := ∃ new runs, Grows s c'.store new runs
  have advance (c₁ : Creation) (r : RunRequest) (c₂ : Creation) (grown : Grown c₁)
      (added : c₁.addRequest tenant now r = .ok c₂) : Grown c₂ ∧ c₂.store.Answered tenant r ∧
        ∀ r', c₁.store.Answered tenant r' → c₂.store.Answered tenant r' := by
    obtain ⟨new, runs, grows⟩ := grown
    obtain ⟨answered, new', runs', more⟩ := addRequest_answers (grows.workflows ▸ steps) added
    exact ⟨⟨_, _, grows.trans more⟩, answered, fun r' => more.answered⟩
  have grown : Grown c := foldlM_ok h ⟨[], [], .refl s⟩
    fun c₁ r _ c₂ grown added => (advance c₁ r c₂ grown added).1
  have answered : ∀ r ∈ requests, c.store.Answered tenant r :=
    foldlM_each (P := Grown) (Q := fun r c => c.store.Answered tenant r) h ⟨[], [], .refl s⟩
      fun c₁ r _ c₂ grown added => advance c₁ r c₂ grown added
  refine ⟨grown, fun later ids' => ?_⟩
  rw [triggerRuns, addRequests_answered (c := { store := c.store, ids := ids' }) later answered]
  cases c.store.requirePartition later <;> rfl

end Store

/-! ### Announcements -/

namespace Agenda

variable {told : Part → Outcome → Prop} {a b : Agenda} {lost : List WaitingStep}

theorem Advance.ordered (step : Advance told a lost b) (ordered : ∀ x ∈ a.waiting, x.Ordered) :
    ∀ x ∈ b.waiting, x.Ordered := by
  cases step with
  | alone => exact ordered
  | opened =>
    refine List.forall_mem_append.mpr ⟨ordered, List.forall_mem_map.mpr fun _ _ => ?_⟩
    exact .nil
  | heard => exact List.forall_mem_map.mpr fun x hx => (ordered x hx).hear
  | reordered same => exact fun x hx => ordered x (same.mem_iff.mpr hx)
  | started here | abandoned here =>
    exact fun x hx => ordered x (here ▸ List.mem_cons_of_mem _ hx)

theorem Advances.ordered (advances : Advances told a lost b) (ordered : ∀ x ∈ a.waiting, x.Ordered) :
    ∀ x ∈ b.waiting, x.Ordered := by
  induction advances with
  | none => exact ordered
  | more _ step ih => exact step.ordered ih

end Agenda

namespace Store

variable {s s' : Store} {c : Creation} {tenant : TenantId} {now : Instant} {ids : IdSource}
  {evicted : List Attempt} {e : OutcomeEvent} {events : List OutcomeEvent}

theorem Reachable.waiting_ordered (reached : Reachable evicted s) : ∀ x ∈ s.waiting, x.Ordered := by
  induction reached with
  | empty => exact List.forall_mem_nil _
  | @after s s' _ _ before c done ih =>
    rcases obey_agenda before.sound done with ⟨_, _, _, _, agenda⟩ | advances
    · have same : s'.waiting = s.waiting := congrArg Agenda.waiting agenda
      rwa [same]
    · exact advances.ordered ih

theorem noteAll_words (s : Store) (tenant : TenantId) (events : List OutcomeEvent) :
    s.noteAll tenant events =
      { s with waiting := s.waiting.map (·.hearAll (events.filterMap (s.word? tenant))) } := by
  induction events generalizing s with
  | nil => simp [noteAll, WaitingStep.hearAll]
  | cons e rest ih =>
    -- The first announcement changes no task, so the later ones bring the same words.
    change (s.noteOutcome tenant e).noteAll tenant rest = _
    rw [ih, noteOutcome_word, List.map_map, List.filterMap_cons]
    refine congrArg (fun waiting => { s with waiting }) (List.map_congr_left fun x _ => ?_)
    change (x.hearAll _).hearAll (rest.filterMap (s.word? tenant)) = _
    cases s.word? tenant e <;> rfl

/-- The external ids of the tasks that announcements are of. -/
def announcedIds (events : List OutcomeEvent) : List ExternalId :=
  events.filterMap fun e => (Outcome.ofKey? e.key).map (·.2)

/-- An announcement brings the same word when tasks of other external ids have come into being. -/
theorem Grows.word? {new : List Task} {runs : List DagRecord} (grows : Grows s s' new runs)
    (he : e ∈ events) (apart : ∀ t ∈ new, t.externalId ∉ announcedIds events) :
    s'.word? tenant e = s.word? tenant e := by
  unfold Store.word?
  cases read : Outcome.ofKey? e.key with
  | none => rfl
  | some named =>
    obtain ⟨outcome, id⟩ := named
    have announced : id ∈ announcedIds events := List.mem_filterMap.mpr ⟨e, he, by rw [read]; rfl⟩
    have same : s'.taskByExternalId? id = s.taskByExternalId? id := by
      simp only [taskByExternalId?, List.findRev?_eq_find?_reverse, grows.tasks, List.reverse_append,
        List.find?_append]
      have none : new.reverse.find? (·.externalId == id) = none := by
        rw [List.find?_eq_none]
        intro t ht named
        exact apart t (List.mem_reverse.mp ht) (eq_of_beq named ▸ announced)
      rw [none, Option.none_or]
    simp [same]

/-- The store in which the other steps go on waiting. -/
def unreadied (s : Store) (tenant : TenantId) (events : List OutcomeEvent) : Store :=
  { s.noteAll tenant events with
    waiting := (s.noteAll tenant events).waiting.filter fun x => !(x.tenantId == tenant && x.isReady) }

theorem matchOutcomes_eq (s : Store) (ids : IdSource) (now : Instant) (tenant : TenantId)
    (events : List OutcomeEvent) : s.matchOutcomes ids now tenant events =
      s.requirePartition now >>= fun _ =>
        (s.readied tenant events).foldlM (fun c x => c.addReady tenant now x)
          { store := s.unreadied tenant events, ids } := by
  simp only [matchOutcomes, List.partition_eq_filter_filter]
  rfl

/-- Announcements that come once more let no step begin, and no step hears anything new. -/
theorem matchOutcomes_repeated (ordered : ∀ x ∈ s.waiting, x.Ordered)
    (unnamed : ∀ k, ids.drawn < k → k ≤ c.ids.drawn → .generated k ∉ announcedIds events)
    (h : s.matchOutcomes ids now tenant events = .ok c) :
    (∃ new, Grows s c.store new []) ∧ ∀ later ids',
      c.store.matchOutcomes ids' later tenant events =
        (fun _ => { store := c.store, ids := ids' }) <$> c.store.requirePartition later := by
  obtain ⟨new, grows⟩ := matchOutcomes_grows h
  refine ⟨⟨new, grows⟩, fun later ids' => ?_⟩
  have waiting := (matchOutcomes_advances h).2
  -- The new tasks have ids that were drawn, and the announcements are of none of these.
  have words : events.filterMap (c.store.word? tenant) = events.filterMap (s.word? tenant) := by
    obtain ⟨new', tasks, -, -, born⟩ := (matchOutcomes_creates h).tasks
    obtain rfl : new = new' := List.append_cancel_left (grows.tasks.symm.trans tasks)
    refine List.filterMap_congr fun e he => grows.word? he fun t ht => ?_
    rcases (born t ht).externalId with named | ⟨k, since, upTo, drawn⟩
    · cases named
    · exact drawn ▸ unnamed k since upTo
  have heard : c.store.noteAll tenant events = c.store := by
    rw [noteAll_words, words]
    refine congrArg (fun waiting => { c.store with waiting }) ?_
    refine (List.map_congr_left fun x hx => ?_).trans (List.map_id _)
    rw [waiting, noteAll_words] at hx
    obtain ⟨y, hy, rfl⟩ := List.mem_map.mp (List.mem_filter.mp hx).1
    exact WaitingStep.hearAll_again (ordered y hy) _
  have ready : c.store.readied tenant events = [] := by
    rw [readied, heard, waiting, List.filter_filter, List.filter_eq_nil_iff]
    simp
  have rest : c.store.unreadied tenant events = c.store := by
    rw [unreadied, heard]
    refine congrArg (fun waiting => { c.store with waiting }) (List.filter_eq_self.mpr fun x hx => ?_)
    rw [waiting] at hx
    exact (List.mem_filter.mp hx).2
  rw [matchOutcomes_eq, ready, rest]
  cases c.store.requirePartition later <;> rfl

end Store

end WorkflowEngine
