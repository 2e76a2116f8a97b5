import Mathlib.Data.List.Perm.Subperm
import WorkflowEngine.Guarded
import WorkflowEngine.Proofs.Store.Onward

/-!
What gets into queues. Each attempt is put into its queue once, is let in by its last strategy at most once
and is handed to a worker at most once, and one that a strategy evicted is never queued or handed out again.
What is put into a queue is seen from the stores: it is in the queue of the later one by an item that the
earlier one does not have.
-/

namespace WorkflowEngine

open Fallible Store
open Admission (Decision)

/-- What becomes of attempts by a command. -/
structure Log where
  /-- Those that are put into their queue. -/
  entered : List Attempt := []
  /-- Those that a run of a strategy tells of as queued. -/
  admitted : List Attempt := []
  /-- Those that a run of a strategy tells of as cancelled. -/
  evicted : List Attempt := []
  /-- Those that are told of as running on a worker now. -/
  assigned : List Attempt := []

/-- One log behind another. -/
def Log.add (a b : Log) : Log where
  entered := a.entered ++ b.entered
  admitted := a.admitted ++ b.admitted
  evicted := a.evicted ++ b.evicted
  assigned := a.assigned ++ b.assigned

namespace Store

/-- The attempts that are in the queue of the second store by an item that is not in the first one's. -/
def arrivals (s s' : Store) : List Attempt :=
  (s'.queueItems.filter (· ∉ s.queueItems)).map (·.task)

/-- The attempts that get into the queue by commands, one after the other. -/
def entrances (s : Store) : List Command → List Attempt
  | [] => []
  | c :: rest =>
    match s.obey c with
    | .ok (_, s') => s.arrivals s' ++ s'.entrances rest
    | .error _ => []

def admits (s : Store) : Command → List Attempt
  | .runStrategy tenant strategy => (s.runStrategy tenant strategy).1.queued.map (·.task)
  | _ => []

def assigns (s : Store) : Command → List Attempt
  | .assign now tenant assignments =>
    match s.assign now tenant assignments with
    | .ok (attempts, _) => attempts
    | .error _ => []
  | _ => []

/-- Carries out a command, with the log of it. The queue is looked at before and behind each item of a
batch. -/
def logged (s : Store) (c : Command) : Except Fault (Log × Store) := do
  let (evicted, s') ← s.obey c
  return ({ entered := s.entrances c.singles, admitted := s.admits c, evicted, assigned := s.assigns c }, s')

variable {s s' s'' : Store} {log log' : Log} {a : Attempt} {t u : Task} {i : TaskId} {now : Instant}
  {tenant : TenantId} {d : Decision} {ds : List Decision} {σ : StrategyId} {c : Command}
  {cs : List Command} {more : List Attempt}

/-- The log is about what the command does. -/
theorem logged_obey (done : s.logged c = .ok (log, s')) : s.obey c = .ok (log.evicted, s') ∧
    log = { entered := s.entrances c.singles, admitted := s.admits c, evicted := log.evicted,
            assigned := s.assigns c } := by
  obtain ⟨⟨evicted, s₁⟩, obeyed, done⟩ := bind_ok done
  cases done
  exact ⟨obeyed, rfl⟩

theorem entrances_single (done : s.obey c = .ok (more, s')) : s.entrances [c] = s.arrivals s' := by
  rw [entrances, done]
  exact List.append_nil _

theorem mem_arrivals : a ∈ s.arrivals s' ↔ ∃ q ∈ s'.queueItems, q ∉ s.queueItems ∧ q.task = a := by
  simp [arrivals, and_assoc]

/-! ### Logs -/

/-- What a strategy tells of as queued has arrived. -/
theorem runStrategy_admits {strategy : Strategy} (sound : s.Sound) :
    ((s.runStrategy tenant strategy).1.queued.map (·.task)).Subperm
      (s.arrivals (s.runStrategy tenant strategy).2) := by
  have committed := (sound.run_concluded tenant strategy).committed sound
    (runStrategy_sound sound tenant strategy)
  have told : Admission.Summary.ofDecisions (s.decisions tenant (s.asRegistered strategy)) =
      (s.runStrategy tenant strategy).1 := by
    rw [sound.runStrategy_eq]
  rw [told] at committed
  have once := committed.once
  rw [List.map_append] at once
  refine List.subperm_of_subset (List.nodup_append.mp once).1 fun a ha => ?_
  obtain ⟨absent, q, hq, mine⟩ := (committed.queued a).mp ha
  exact mem_arrivals.mpr ⟨q, hq, fun old => absent ⟨q, old, mine⟩, mine⟩

/-- The log tells what happened between two states: what enters a queue was not settled before, and what
is assigned was not gone. -/
structure Logs (s : Store) (log : Log) (s' : Store) : Prop where
  onward : Onward s s'
  queue : ∀ q ∈ s'.queueItems, q ∈ s.queueItems ∨ q.task ∈ log.entered
  entered : ∀ a ∈ log.entered, ¬ s.Settled a ∧ s'.Settled a
  once : log.entered.Nodup
  admitted : log.admitted.Subperm log.entered
  evicted : ∀ a ∈ log.evicted, s'.Gone a
  assigned : ∀ a ∈ log.assigned, ¬ s.Gone a ∧ s'.Gone a
  assignedOnce : log.assigned.Nodup

theorem Logs.refl (s : Store) : Logs s {} s :=
  ⟨.refl s, fun _ => Or.inl, List.forall_mem_nil _, .nil, List.nil_subperm, List.forall_mem_nil _,
    List.forall_mem_nil _, .nil⟩

theorem Logs.trans (first : Logs s log s') (second : Logs s' log' s'') :
    Logs s (log.add log') s'' := by
  refine ⟨first.onward.trans second.onward, fun q hq => ?_, fun a ha => ?_, ?_,
    first.admitted.append second.admitted, fun a ha => ?_, fun a ha => ?_, ?_⟩
  · rcases second.queue q hq with old | new
    · exact (first.queue q old).imp id (List.mem_append_left _)
    · exact Or.inr (List.mem_append_right _ new)
  · rcases List.mem_append.mp ha with old | new
    · exact ⟨(first.entered a old).1, second.onward.settled a (first.entered a old).2⟩
    · exact ⟨fun before => (second.entered a new).1 (first.onward.settled a before),
        (second.entered a new).2⟩
  · refine List.nodup_append.mpr ⟨first.once, second.once, fun a old b new same => ?_⟩
    exact (second.entered b new).1 (same ▸ (first.entered a old).2)
  · exact (List.mem_append.mp ha).elim (fun old => second.onward.gone (first.evicted a old))
      (second.evicted a)
  · rcases List.mem_append.mp ha with old | new
    · exact ⟨(first.assigned a old).1, second.onward.gone (first.assigned a old).2⟩
    · exact ⟨fun before => (second.assigned a new).1 (first.onward.gone before),
        (second.assigned a new).2⟩
  · refine List.nodup_append.mpr ⟨first.assignedOnce, second.assignedOnce, fun a old b new same => ?_⟩
    exact (second.assigned b new).1 (same ▸ (first.assigned a old).2)

/-- What arrives was not settled before, and is settled then. -/
theorem Onward.logs (onward : Onward s s') (after : s'.Sound) (filed : s'.Filed) :
    Logs s { entered := s.arrivals s' } s' := by
  refine ⟨onward, fun q hq => ?_, fun a ha => ?_, ?_, List.nil_subperm, List.forall_mem_nil _,
    List.forall_mem_nil _, .nil⟩
  · by_cases old : q ∈ s.queueItems
    · exact Or.inl old
    · exact Or.inr (mem_arrivals.mpr ⟨q, hq, old, rfl⟩)
  · obtain ⟨q, hq, new, rfl⟩ := mem_arrivals.mp ha
    exact ⟨(onward.queue q hq).resolve_left new, after.queued_settled ⟨q, hq, rfl⟩⟩
  · refine List.pairwise_map.mpr ((filed.sublist List.filter_sublist).imp fun less same => ?_)
    rw [same] at less
    exact Int.lt_irrefl _ less

theorem entrances_logs (sound : s.Sound) (filed : s.Filed) (done : s.obeyAll cs = .ok (more, s')) :
    Logs s { entered := s.entrances cs } s' := by
  induction cs generalizing s more with
  | nil =>
    cases done
    exact .refl _
  | cons c rest ih =>
    obtain ⟨⟨first, s₁⟩, obeyed, done⟩ := bind_ok done
    obtain ⟨⟨later, s₂⟩, followed, done⟩ := bind_ok done
    cases done
    have onward := obey_onward sound obeyed
    have after := (obey_moves obeyed).sound sound
    rw [entrances, obeyed]
    exact (onward.logs after (onward.filed filed)).trans (ih after (onward.filed filed) followed)

theorem logged_logs (sound : s.Sound) (filed : s.Filed) (done : s.logged c = .ok (log, s')) :
    Logs s log s' := by
  obtain ⟨obeyed, told⟩ := logged_obey done
  have items : Logs s { entered := s.entrances c.singles } s' :=
    entrances_logs sound filed (obey_singles s c ▸ obeyed)
  generalize log.evicted = evicted at obeyed told
  subst told
  cases c with
  | runStrategy tenant strategy =>
    cases obeyed
    have whole : s.entrances [.runStrategy tenant strategy] =
        s.arrivals (s.runStrategy tenant strategy).2 := entrances_single rfl
    exact { items with
      admitted := whole ▸ runStrategy_admits sound
      evicted := runStrategy_gone sound }
  | assign now tenant assignments =>
    obtain rfl := obey_spares rfl obeyed
    obtain ⟨⟨r, s₁⟩, assigned, obeyed⟩ := bind_ok obeyed
    cases obeyed
    have told : s.assigns (.assign now tenant assignments) = r := by rw [assigns, assigned]
    obtain ⟨-, gone, once⟩ := assign_gone sound assigned
    rw [told]
    exact { items with assigned := gone, assignedOnce := once }
  | _ =>
    obtain rfl := obey_spares rfl obeyed
    exact items

theorem Sound.logged_run {strategy : Strategy} (sound : s.Sound)
    (decided : s.decisions tenant (s.asRegistered strategy) = ds) :
    s.logged (.runStrategy tenant strategy) =
      .ok ({ entered := s.arrivals (s.carryOutAll strategy.id ds)
             admitted := (Admission.Summary.ofDecisions ds).queued.map (·.task)
             evicted := (Admission.Summary.ofDecisions ds).cancelled.map (·.task) },
        s.carryOutAll strategy.id ds) := by
  subst decided
  simp only [logged, Command.singles, entrances, admits, assigns, obey, sound.runStrategy_eq, List.append_nil]
  rfl

/-- What a command evicts it neither lets in nor hands out. -/
theorem logged_apart (sound : s.Sound) (done : s.logged c = .ok (log, s')) :
    ∀ a ∈ log.evicted, a ∉ log.entered ∧ a ∉ log.assigned := by
  obtain ⟨obeyed, told⟩ := logged_obey done
  generalize log.evicted = evicted at obeyed told
  subst told
  cases c with
  | runStrategy tenant strategy =>
    cases obeyed
    refine fun a gone => ⟨fun entered => ?_, List.not_mem_nil⟩
    have whole : s.entrances [.runStrategy tenant strategy] =
        s.arrivals (s.runStrategy tenant strategy).2 := entrances_single rfl
    have arrived : a ∈ s.arrivals (s.runStrategy tenant strategy).2 := whole ▸ entered
    obtain ⟨q, hq, -, mine⟩ := mem_arrivals.mp arrived
    exact (runStrategy_gone sound a gone).2 ⟨q, hq, mine⟩
  | _ =>
    obtain rfl := obey_spares rfl obeyed
    exact List.forall_mem_nil _

/-! ### What a command puts into queues -/

/-- Where only one task changes and its attempt is over then, all others stay in the queue. -/
theorem queued_or_past (sound : s.Sound) (ht : t ∈ s.tasks) (only : OnlyTask t.id s s')
    (past : s'.Past t.attempt) (queued : s.InQueue a) : s'.InQueue a ∨ s'.Past a := by
  obtain ⟨q, hq, rfl⟩ := queued
  by_cases mine : q.task.id = t.id
  · obtain ⟨rfl, -, -⟩ := (sound.standing t ht).item q hq mine
    exact Or.inr past
  · exact Or.inl ⟨q, (only.items q mine).mpr hq, rfl⟩

theorem failOne_stays {f : Failure} {outcome : FailureOutcome} (sound : s.Sound)
    (h : s.failOne now tenant f = .ok (outcome, s')) (queued : s.InQueue a) :
    s'.InQueue a ∨ s'.Past a := by
  unfold failOne at h
  split at h
  · cases h
    exact Or.inl queued
  · rename_i t found
    have ht := (accepted?_task found).1
    split at h
    · obtain ⟨next, again, h⟩ := bind_ok h
      cases h
      have keeps := nextAttempt_keeps again
      have cleared : OnlyTask t.id s ((s.setTask next).release next.id) := cleared_only keeps
      rw [keeps.id] at cleared
      refine queued_or_past sound ht (cleared.trans (keeps.id ▸ enqueue_only))
        ⟨next, ?_, keeps.id, Or.inl ?_⟩ queued
      · rw [enqueue_tasks]
        exact mem_setTask.mpr (Or.inl ⟨rfl, t, ht, keeps.id.symm⟩)
      · rw [(nextAttempt_counts again).2.2.1]
        exact Int.lt_succ _
    · cases h
      let u := closed t .failed t.scheduleTimeoutAt
      have keeps : t.Keeps u := ⟨rfl, rfl, rfl, rfl, rfl⟩
      exact queued_or_past sound ht (cleared_only keeps)
        ⟨u, mem_setTask.mpr (Or.inl ⟨rfl, t, ht, rfl⟩), rfl, Or.inr ⟨rfl, rfl⟩⟩ queued

/-- If attempts stay in the queue until they are over, those that have got there do too. -/
theorem entrances_stay (sound : s.Sound)
    (stays : ∀ c ∈ cs, ∀ (s s' : Store) (more : List Attempt), s.Sound → s.obey c = .ok (more, s') →
      ∀ a, s.InQueue a → s'.InQueue a ∨ s'.Past a)
    (done : s.obeyAll cs = .ok (more, s')) (here : (s.InQueue a ∨ s.Past a) ∨ a ∈ s.entrances cs) :
    s'.InQueue a ∨ s'.Past a := by
  induction cs generalizing s more with
  | nil =>
    cases done
    exact here.resolve_right List.not_mem_nil
  | cons c rest ih =>
    obtain ⟨⟨first, s₁⟩, obeyed, done⟩ := bind_ok done
    obtain ⟨⟨later, s₂⟩, followed, done⟩ := bind_ok done
    cases done
    obtain ⟨stay, stays⟩ := List.forall_mem_cons.mp stays
    refine ih ((obey_moves obeyed).sound sound) stays followed ?_
    rw [entrances, obeyed, List.mem_append] at here
    obtain (queued | past) | arrived | later := here
    · exact Or.inl (stay s s₁ first sound obeyed a queued)
    · exact Or.inl (Or.inr (obey_past sound past obeyed))
    · obtain ⟨q, hq, -, mine⟩ := mem_arrivals.mp arrived
      exact Or.inl (Or.inl ⟨q, hq, mine⟩)
    · exact Or.inr later

theorem entrances_eq_nil (sound : s.Sound)
    (fewer : ∀ c ∈ cs, ∀ (s s' : Store) (more : List Attempt), s.Sound → s.obey c = .ok (more, s') →
      s'.queueItems.Sublist s.queueItems) : s.entrances cs = [] := by
  induction cs generalizing s with
  | nil => rfl
  | cons c rest ih =>
    obtain ⟨first, others⟩ := List.forall_mem_cons.mp fewer
    rw [entrances]
    split
    · rename_i obeyed
      rw [ih ((obey_moves obeyed).sound sound) others, List.append_nil, List.eq_nil_iff_forall_not_mem]
      intro a arrived
      obtain ⟨q, hq, new, -⟩ := mem_arrivals.mp arrived
      exact new ((first _ _ _ sound obeyed).subset hq)
    · rfl

/-- The log of a command and the queue: what is there behind it was there before or has entered it, and
what enters was not there before and is there then, unless the same batch has put an end to it. -/
structure Enters (s : Store) (log : Log) (s' : Store) : Prop where
  queue : ∀ q ∈ s'.queueItems, q ∈ s.queueItems ∨ q.task ∈ log.entered
  fresh : ∀ a ∈ log.entered, ¬ s.InQueue a
  there : ∀ a ∈ log.entered, s'.InQueue a ∨ s'.Past a

theorem singles_there (sound : s.Sound) (done : s.obey c = .ok (more, s')) :
    ∀ a ∈ s.entrances c.singles, s'.InQueue a ∨ s'.Past a := by
  cases c with
  | complete tenant attempts =>
    rw [entrances_eq_nil sound ?_]
    · exact List.forall_mem_nil _
    intro c listed s s' more _ obeyed
    obtain ⟨a, -, rfl⟩ := List.mem_map.mp listed
    cases obeyed
    exact (s.completeOne_ending tenant a).fewer
  | cancel tenant attempts =>
    rw [entrances_eq_nil sound ?_]
    · exact List.forall_mem_nil _
    intro c listed s s' more _ obeyed
    obtain ⟨a, -, rfl⟩ := List.mem_map.mp listed
    cases obeyed
    exact (s.cancelOne_ending tenant a).fewer
  | assign now tenant assignments =>
    rw [entrances_eq_nil sound ?_]
    · exact List.forall_mem_nil _
    intro c listed s s' more sound obeyed
    obtain ⟨x, -, rfl⟩ := List.mem_map.mp listed
    obtain ⟨⟨r, s₁⟩, assigned, obeyed⟩ := bind_ok obeyed
    cases obeyed
    obtain ⟨⟨first, s₂⟩, assigned, followed⟩ := bind_ok assigned
    cases followed
    exact (assignOne_gone sound assigned).2.1
  | fail now tenant failures =>
    rw [obey_singles] at done
    refine fun a entered => entrances_stay sound ?_ done (Or.inr entered)
    intro c listed s s' more sound obeyed a queued
    obtain ⟨f, -, rfl⟩ := List.mem_map.mp listed
    obtain ⟨⟨r, s₁⟩, failed, obeyed⟩ := bind_ok obeyed
    cases obeyed
    obtain ⟨⟨r', s₂⟩, failed, followed⟩ := bind_ok failed
    cases followed
    obtain ⟨⟨outcome, s₃⟩, failed, followed⟩ := bind_ok failed
    cases followed
    exact failOne_stays sound failed queued
  | _ =>
    intro a entered
    have arrived : a ∈ s.arrivals s' := entrances_single done ▸ entered
    obtain ⟨q, hq, -, mine⟩ := mem_arrivals.mp arrived
    exact Or.inl ⟨q, hq, mine⟩

theorem logged_enters (sound : s.Sound) (filed : s.Filed) (done : s.logged c = .ok (log, s')) :
    Enters s log s' := by
  have logs := logged_logs sound filed done
  obtain ⟨obeyed, told⟩ := logged_obey done
  refine ⟨logs.queue, fun a entered queued => (logs.entered a entered).1 (sound.queued_settled queued), ?_⟩
  rw [told]
  exact singles_there sound obeyed

end Store

/-! ### Runs -/

/-- Gives commands to a store, one after the other, and tells what the ones that succeed do. -/
def Guarded.history (g : Guarded Store) : List Command → List Log × Guarded Store
  | [] => ([], g)
  | c :: rest =>
    match g.write (·.logged c) with
    | (.ok log, g) =>
      let (logs, g) := history g rest
      (log :: logs, g)
    | (.error _, g) => history g rest

/-- Several logs as one. -/
def Log.sum (logs : List Log) : Log := logs.foldr Log.add {}

@[simp] theorem Log.sum_cons (log : Log) (logs : List Log) : sum (log :: logs) = log.add (sum logs) := rfl

theorem Log.sum_eq (logs : List Log) : sum logs =
    { entered := logs.flatMap (·.entered)
      admitted := logs.flatMap (·.admitted)
      evicted := logs.flatMap (·.evicted)
      assigned := logs.flatMap (·.assigned) } := by
  induction logs with
  | nil => rfl
  | cons log rest ih =>
    rw [sum_cons, ih]
    rfl

/-- What the first of two commands evicts, the second one neither lets in nor hands out. -/
def Log.Bars (log later : Log) : Prop := ∀ a ∈ log.evicted, a ∉ later.entered ∧ a ∉ later.assigned

theorem Guarded.history_append (g : Guarded Store) (front rest : List Command) :
    g.history (front ++ rest) =
      ((g.history front).1 ++ ((g.history front).2.history rest).1, ((g.history front).2.history rest).2) := by
  induction front generalizing g with
  | nil => rfl
  | cons c front ih =>
    simp only [List.cons_append, history]
    split
    · rename_i log g' _
      rw [ih]
      rfl
    · exact ih _

namespace Store

variable {s s' s'' : Store} {log later : Log} {logs : List Log}

theorem Logs.bars (first : Logs s log s') (second : Logs s' later s'') : log.Bars later := by
  intro a ha
  have gone := first.evicted a ha
  exact ⟨fun entered => (second.entered a entered).1 gone.1, fun given => (second.assigned a given).1 gone⟩

theorem bars_of_sum (bars : log.Bars (.sum logs)) : ∀ later ∈ logs, log.Bars later := by
  intro later listed a ha
  have none := bars a ha
  rw [Log.sum_eq] at none
  exact ⟨fun entered => none.1 (List.mem_flatMap.mpr ⟨later, listed, entered⟩),
    fun given => none.2 (List.mem_flatMap.mpr ⟨later, listed, given⟩)⟩

theorem history_poisoned (cs : List Command) : (Guarded.poisoned).history cs = ([], .poisoned) := by
  induction cs with
  | nil => rfl
  | cons c rest ih => exact ih

theorem history_ok {c : Command} (cs : List Command) (done : s.logged c = .ok (log, s')) :
    (Guarded.sound s).history (c :: cs) =
      (log :: ((Guarded.sound s').history cs).1, ((Guarded.sound s').history cs).2) := by
  simp only [Guarded.history, Guarded.write, done]

theorem history_error {c : Command} {f : Fault} (cs : List Command) (failed : s.logged c = .error f) :
    (Guarded.sound s).history (c :: cs) = ((Guarded.sound s).afterFault f).history cs := by
  simp only [Guarded.history, Guarded.write, failed]

theorem eq_of_ended {g : Guarded Store} (last : g = .sound s' ∨ g = .poisoned) (ended : g = .sound s) :
    s' = s := by
  subst ended
  rcases last with left | left
  · exact (Guarded.sound.inj left).symm
  · cases left

/-- The logs of a run tell what happened up to the last state that is not poisoned. -/
theorem Sound.history_logs (sound : s.Sound) (filed : s.Filed) (cs : List Command) : ∃ s',
    s'.Sound ∧ Logs s (.sum ((Guarded.sound s).history cs).1) s' ∧
    (((Guarded.sound s).history cs).2 = .sound s' ∨ ((Guarded.sound s).history cs).2 = .poisoned) ∧
    (∀ log ∈ ((Guarded.sound s).history cs).1, log.admitted.Subperm log.entered ∧ log.Bars log) ∧
    ((Guarded.sound s).history cs).1.Pairwise Log.Bars := by
  induction cs generalizing s with
  | nil => exact ⟨s, sound, .refl s, Or.inl rfl, List.forall_mem_nil _, .nil⟩
  | cons c rest ih =>
    cases obeyed : s.logged c with
    | ok done =>
      obtain ⟨log, s₁⟩ := done
      have first := logged_logs sound filed obeyed
      obtain ⟨s', sound', logs, last, each, bars⟩ :=
        ih ((obey_moves (logged_obey obeyed).1).sound sound) (first.onward.filed filed)
      rw [history_ok rest obeyed]
      refine ⟨s', sound', first.trans logs, last, List.forall_mem_cons.mpr ⟨?_, each⟩, ?_⟩
      · exact ⟨first.admitted, logged_apart sound obeyed⟩
      · exact List.pairwise_cons.mpr ⟨bars_of_sum (first.bars logs), bars⟩
    | error f =>
      rw [history_error rest obeyed]
      unfold Guarded.afterFault
      split
      · rw [history_poisoned]
        exact ⟨s, sound, .refl s, Or.inr rfl, List.forall_mem_nil _, .nil⟩
      · exact ih sound filed

/-- A workflow that runs one task of each user at a time. -/
def oneAtATime : Workflow where
  id := ⟨1⟩
  name := "mail"
  steps := [
    { id := ⟨2⟩, readableId := "send", queue := "default"
      limits := [{ expression := "input.user", maxConcurrency := 1, policy := .cancelNewest }] }]

/-- It is triggered twice for the same user. -/
def posting : List Command := [.registerWorkflow ⟨3⟩ oneAtATime, .createPartitions ⟨0⟩,
  .triggerRuns {} ⟨0⟩ ⟨3⟩ [mailFor "ann" ⟨7⟩, mailFor "ann" ⟨8⟩]]

def posted : Store := (obeyAll {} posting).toOption.elim {} (·.2)

theorem posting_history : (Guarded.sound {}).history posting = ([{}, {}, {}], .sound posted) := by rfl

theorem posted_reachable : Reachable [] posted := (Reachable.empty 3).all posting rfl

def firstPost : Admission.Candidate := ⟨⟨1, 0⟩, "ann", 1, false, "default", []⟩

def secondPost : Admission.Candidate := ⟨⟨2, 0⟩, "ann", 2, false, "default", []⟩

theorem posted_decisions : posted.decisions ⟨3⟩ (posted.asRegistered oneOfUser) =
    [firstPost.letIn, secondPost.cancel] := by
  have known : posted.asRegistered oneOfUser = oneOfUser := by rfl
  have candidates : ((posted.slotsOf oneOfUser.id).filter (·.tenantId == ⟨3⟩)).map candidate =
      [firstPost, secondPost] := by rfl
  rw [known, decisions, candidates]
  cbv

def chosen : Store := posted.carryOutAll 1 [firstPost.letIn, secondPost.cancel]

theorem posted_logged : posted.logged (.runStrategy ⟨3⟩ oneOfUser) =
    .ok ({ entered := [⟨1, 0⟩], admitted := [⟨1, 0⟩], evicted := [⟨2, 0⟩] }, chosen) :=
  posted_reachable.sound.logged_run posted_decisions

/-- Both are to run then, and the one that was let in is lost. -/
def losing : List Command := [.assign ⟨0⟩ ⟨3⟩ [⟨⟨1, 0⟩, ⟨5⟩⟩, ⟨⟨2, 0⟩, ⟨6⟩⟩],
  .fail ⟨0⟩ ⟨3⟩ [⟨⟨1, 0⟩, false, "lost"⟩]]

def bereft : Store := (chosen.obeyAll losing).toOption.elim {} (·.2)

theorem losing_history : (Guarded.sound chosen).history losing =
    ([{ assigned := [⟨1, 0⟩] }, {}], .sound bereft) := by rfl

theorem bereft_reachable : Reachable [⟨2, 0⟩] bereft :=
  (posted_reachable.after _ (logged_obey posted_logged).1).all losing rfl

def thirdPost : Admission.Candidate := ⟨⟨1, 1⟩, "ann", 3, false, "default", []⟩

theorem bereft_decisions : bereft.decisions ⟨3⟩ (bereft.asRegistered oneOfUser) = [thirdPost.letIn] := by
  have known : bereft.asRegistered oneOfUser = oneOfUser := by rfl
  have candidates : ((bereft.slotsOf oneOfUser.id).filter (·.tenantId == ⟨3⟩)).map candidate =
      [thirdPost] := by rfl
  rw [known, decisions, candidates]
  cbv

def delivery : List Command :=
  posting ++ .runStrategy ⟨3⟩ oneOfUser :: (losing ++ [.runStrategy ⟨3⟩ oneOfUser])

end Store

end WorkflowEngine
