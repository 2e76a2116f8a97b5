import WorkflowEngine.Proofs.ReadModel.Drain
import WorkflowEngine.Proofs.ReadModel.Steps

/-!
What becomes of the updates of a run that has no row. A trail keeps with each update how often it was put
back since some moment, and notes the updates that may not come back any more. A pass looks at the first
update of each run only and drops the others with it, so an update that was put back often may use up the
time of one that is new: what is left is counted from the older one.
-/

namespace WorkflowEngine

open Fallible

/-- An update that finds no row comes back. -/
def PendingDag.returns (p : PendingDag) : Bool := decide (p.requeueRetries < maxRequeues)

/-- The update as it comes back. -/
def PendingDag.again (now : Instant) (p : PendingDag) : PendingDag :=
  { p with
    requeueAfter := ⟨now.nanos + requeueDelay p.requeueRetries * 1000000000⟩
    requeueRetries := p.requeueRetries + 1 }

namespace ReadModel

variable {m m' m₀ m₁ : ReadModel} {i : DagId} {tenant : TenantId} {share limit n : Nat} {now : Instant}
  {op : Operation} {taken : List Pending} {ps : List PendingDag}

/-! ### Passes over updates -/

/-- The run of the update has no row. -/
def misses (m : ReadModel) (p : PendingDag) : Bool := (m.dag? p.dagId).isNone

theorem misses_congr (ids : m'.dags.map (·.id) = m.dags.map (·.id)) : m'.misses = m.misses := by
  have listed (m : ReadModel) (p : PendingDag) :
      m.misses p = !(m.dags.map (·.id)).any (· == p.dagId) := by
    rw [misses, dag?, ← Option.not_isSome, List.isSome_find?, List.any_map]
    rfl
  funext p
  rw [listed, listed, ids]

theorem foldDag_back {p : PendingDag} (done : m.foldDag share now p = .ok m') :
    m'.pendingDags = m.pendingDags ++
      (([p].filter m.misses).filter (·.returns)).map fun p => (share, p.again now) := by
  unfold foldDag at done
  split at done
  · rename_i row found
    cases done
    have there : ¬ m.misses p = true := by simp [misses, found]
    rw [List.filter_cons_of_neg there]
    exact (refreshDag_same m row).2.1.trans (List.append_nil _).symm
  · rename_i missing
    have gone : m.misses p = true := by simp [misses, missing]
    rw [List.filter_cons_of_pos gone, List.filter_nil]
    split at done
    · rename_i more
      obtain ⟨after, deadline, done⟩ := bind_ok done
      cases done
      have returns : p.returns = true := decide_eq_true more
      rw [List.filter_cons_of_pos returns, deadline_value deadline]
      rfl
    · rename_i often
      cases done
      have stays : ¬ p.returns = true := mt of_decide_eq_true often
      rw [List.filter_cons_of_neg stays]
      exact (List.append_nil _).symm

theorem foldDagList_back (done : ps.foldlM (fun m p => m.foldDag share now p) m = .ok m') :
    m'.pendingDags = m.pendingDags ++
      ((ps.filter m.misses).filter (·.returns)).map fun p => (share, p.again now) := by
  induction ps generalizing m with
  | nil =>
    cases done
    exact (List.append_nil _).symm
  | cons p rest ih =>
    rw [List.foldlM_cons] at done
    obtain ⟨m₁, first, done⟩ := bind_ok done
    rw [ih done, foldDag_back first, misses_congr (foldDag_ok first).2.2.1, List.append_assoc,
      ← List.map_append, ← List.filter_append, ← List.filter_append]
    rfl

/-- What is not taken stays in its place, and of what is taken the first update of each run that has no
row comes back. -/
theorem foldDags_back (done : m.foldDags tenant share limit now = .ok (n, m')) :
    let due := takeDue (dagDue tenant share now) limit m.pendingDags
    m'.pendingDags = due.2 ++ (((firstUpdates [] (due.1.map (·.2))).filter m.misses).filter
      (·.returns)).map fun p => (share, p.again now) := by
  obtain ⟨m₁, folded, done⟩ := bind_ok done
  cases done
  exact foldDagList_back folded

/-- Only passes over updates take updates; what others queue is new. -/
theorem perform_queue (dealt : m.Dealt) (done : m.perform op = .ok (taken, m')) :
    (∃ tenant share limit now n, op = .foldDags tenant share limit now ∧
      m.foldDags tenant share limit now = .ok (n, m')) ∨
    (∀ tenant share limit now, op ≠ .foldDags tenant share limit now) ∧
      ∃ more, m'.pendingDags = m.pendingDags ++ more ∧ ∀ q ∈ more, q.2.requeueRetries = 0 := by
  have same (queue : m'.pendingDags = m.pendingDags) :
      ∃ more, m'.pendingDags = m.pendingDags ++ more ∧ ∀ q ∈ more, q.2.requeueRetries = 0 :=
    ⟨[], queue.trans (List.append_nil _).symm, List.forall_mem_nil _⟩
  cases performs done with
  | foldDags folded => exact Or.inl ⟨_, _, _, _, _, rfl, folded⟩
  | createTasks created =>
    refine Or.inr ⟨fun _ _ _ _ => nofun, same ?_⟩
    rw [createTasks_rows created, (addTasks_runs m _).2]
  | createDags created =>
    refine Or.inr ⟨fun _ _ _ _ => nofun, same ?_⟩
    rw [createDags_rows created, (addDags_same m _).2]
  | foldTasks folded =>
    obtain ⟨-, more, queue, -, placed⟩ := foldTasks_updates dealt.shares folded
    exact Or.inr ⟨fun _ _ _ _ => nofun, more, queue, fun q member => (placed q member).fresh⟩
  | insertEvents => exact Or.inr ⟨fun _ _ _ _ => nofun, same rfl⟩
  | maintain now => exact Or.inr ⟨fun _ _ _ _ => nofun, same (maintain_runs m now).2⟩
  | attachPartition => exact Or.inr ⟨fun _ _ _ _ => nofun, same rfl⟩

variable {partitions days : Nat} {ops later : List Operation}

/-- No update comes back more often than it may. -/
theorem after_few (readable : after partitions days ops = .sound m) :
    ∀ q ∈ m.pendingDags, q.2.requeueRetries ≤ maxRequeues := by
  induction ops using List.reverseRecOn generalizing m with
  | nil =>
    cases readable
    exact List.forall_mem_nil _
  | append_singleton ops op ih =>
    obtain ⟨m₁, earlier, ⟨rfl, _⟩ | ⟨taken, done, _⟩⟩ := after_concat readable
    · exact ih earlier
    · intro q member
      rcases perform_queue (after_dealt earlier) done with
        ⟨_, _, _, _, _, rfl, folded⟩ | ⟨-, more, queue, fresh⟩
      · rw [foldDags_back folded] at member
        rcases List.mem_append.mp member with kept | back
        · exact ih earlier q (mem_takeDue.mpr (Or.inr kept))
        · obtain ⟨p, returned, rfl⟩ := List.mem_map.mp back
          exact of_decide_eq_true (List.mem_filter.mp returned).2
      · rw [queue] at member
        rcases List.mem_append.mp member with old | new
        · exact ih earlier q old
        · exact fresh q new ▸ (by decide)

theorem queueDags_fresh {ids : List DagId} (m : ReadModel) (tenant : TenantId) (now : Instant)
    (told : i ∈ ids) : ∃ q ∈ (ids.foldl (fun m id => m.queueDag tenant now id) m).pendingDags,
      q.2.dagId = i ∧ q.2.requeueRetries = 0 := by
  induction ids generalizing m with
  | nil => cases told
  | cons id rest ih =>
    rcases List.mem_cons.mp told with rfl | later
    · have more := (queueDags_runs (m.queueDag tenant now i) tenant now rest).2.1
      have here : ∃ q ∈ (m.queueDag tenant now i).pendingDags,
          q.2.dagId = i ∧ q.2.requeueRetries = 0 := by
        unfold queueDag
        split
        · rename_i waits
          obtain ⟨q, listed, fresh⟩ := List.any_eq_true.mp waits
          exact ⟨q, listed, by simpa using fresh⟩
        · exact ⟨_, List.mem_append_right _ List.mem_cons_self, rfl, rfl⟩
      obtain ⟨q, listed, fresh⟩ := here
      exact ⟨q, more listed, fresh⟩
    · exact ih (m.queueDag tenant now id) later

/-- A pass that moves a task of a run leaves a new update of the run. -/
theorem foldTasks_fresh (ordered : m.Ordered) (done : m.foldTasks tenant share limit now = .ok (n, m'))
    (moved : m'.dagStatuses i ≠ m.dagStatuses i) :
    ∃ q ∈ m'.pendingDags, q.2.dagId = i ∧ q.2.requeueRetries = 0 := by
  obtain ⟨start, m₂, fs, ⟨tasks, -⟩, ⟨tasks₂, -⟩, rfl⟩ := foldTasks_steps done
  have startOrdered : start.Ordered := by
    rw [Ordered, tasks]
    exact ordered
  refine queueDags_fresh m₂ tenant now ((applyAll_statuses startOrdered fs).2.resolve_left fun same => ?_)
  refine moved ((dagStatuses_congr (queueDags_same.1.trans tasks₂)).trans (same.trans ?_))
  exact dagStatuses_congr tasks

/-! ### The trail -/

/-- What waits, and what could not come back, each with how often it was put back since the trail began. -/
structure Trail where
  queue : List (Nat × Nat × PendingDag) := []
  spent : List (Nat × PendingDag) := []

namespace Trail

def start (m : ReadModel) : Trail := { queue := m.pendingDags.map (0, ·) }

/-- The first update of each run. -/
def firsts : List DagId → List (Nat × PendingDag) → List (Nat × PendingDag)
  | _, [] => []
  | seen, u :: rest =>
    if seen.contains u.2.dagId then firsts seen rest
    else u :: firsts (u.2.dagId :: seen) rest

/-- What an operation adds to the queue is new. -/
def queued (t : Trail) (before result : ReadModel) : Trail :=
  { t with queue := t.queue ++ (result.pendingDags.drop before.pendingDags.length).map (0, ·) }

/-- The trail after one more step. -/
def note (t : Trail) (s : Step) : Trail :=
  match s.op with
  | .foldDags tenant share limit now =>
    let due := takeDue (fun q => dagDue tenant share now q.2) limit t.queue
    let missed := (firsts [] (due.1.map fun q => (q.1, q.2.2))).filter fun u => s.before.misses u.2
    { queue := due.2 ++ (missed.filter (·.2.returns)).map fun u => (u.1 + 1, share, u.2.again now)
      spent := t.spent ++ missed.filter (!·.2.returns) }
  | _ => t.queued s.before s.result

variable {t : Trail} {seen : List DagId} {us : List (Nat × PendingDag)} {u : Nat × PendingDag}

theorem firsts_updates : (firsts seen us).map (·.2) = firstUpdates seen (us.map (·.2)) := by
  induction us generalizing seen with
  | nil => rfl
  | cons u rest ih =>
    rw [List.map_cons, firsts, firstUpdates]
    split
    · exact ih
    · rw [List.map_cons, ih]

theorem firsts_sublist : (firsts seen us).Sublist us := by
  induction us generalizing seen with
  | nil => exact List.Sublist.refl _
  | cons u rest ih =>
    rw [firsts]
    split
    · exact ih.cons u
    · exact ih.cons_cons u

theorem mem_firsts (member : u ∈ us) : ∃ v ∈ firsts [] us, v.2.dagId = u.2.dagId := by
  obtain ⟨p, first, own⟩ := mem_firstUpdates (List.mem_map_of_mem member) List.not_mem_nil
  rw [← firsts_updates] at first
  obtain ⟨v, listed, rfl⟩ := List.mem_map.mp first
  exact ⟨v, listed, own⟩

/-- Without the counts the trail has what waits. -/
def Mirrors (t : Trail) (m : ReadModel) : Prop := t.queue.map (·.2) = m.pendingDags

theorem Mirrors.passed (mirrors : t.Mirrors m) (done : m.foldDags tenant share limit now = .ok (n, m')) :
    (t.note ⟨m, .foldDags tenant share limit now, taken, m'⟩).Mirrors m' := by
  let due := takeDue (fun q => dagDue tenant share now q.2) limit t.queue
  have plain : takeDue (dagDue tenant share now) limit m.pendingDags =
      (due.1.map (·.2), due.2.map (·.2)) := by
    rw [← mirrors, takeDue_map]
    rfl
  have first : firstUpdates [] ((due.1.map (·.2)).map (·.2)) =
      (firsts [] (due.1.map fun q => (q.1, q.2.2))).map (·.2) := by
    rw [firsts_updates, List.map_map, List.map_map]
    rfl
  rw [Mirrors, foldDags_back done, plain, first, List.filter_map, List.filter_map, List.map_map]
  change List.map _ (_ ++ _) = _
  rw [List.map_append, List.map_map]
  rfl

/-! ### The updates of one run -/

/-- So often an update of the run had come back when the trail began, or it is a new one. -/
def Began (start : ReadModel) (i : DagId) (before : Int) : Prop :=
  before = 0 ∨ ∃ q ∈ start.pendingDags, q.2.dagId = i ∧ q.2.requeueRetries = before

/-- An update of the run waits, or one is spent. What waits or is spent has been put back as often as the
trail counts, from where it began. -/
structure Follows (m₀ : ReadModel) (i : DagId) (t : Trail) (m : ReadModel) : Prop where
  mirrors : t.Mirrors m
  waiting : ∀ q ∈ t.queue, q.2.2.dagId = i →
    Began m₀ i (q.2.2.requeueRetries - q.1) ∧ q.2.2.requeueRetries ≤ maxRequeues
  spent : ∀ u ∈ t.spent, u.2.dagId = i →
    Began m₀ i (u.2.requeueRetries - u.1) ∧ u.2.requeueRetries = maxRequeues
  left : (∃ q ∈ t.queue, q.2.2.dagId = i) ∨ ∃ u ∈ t.spent, u.2.dagId = i

theorem follows_start (waits : m₀.DagWaits i)
    (few : ∀ q ∈ m₀.pendingDags, q.2.requeueRetries ≤ maxRequeues) : Follows m₀ i (start m₀) m₀ := by
  refine ⟨?_, ?_, List.forall_mem_nil _, ?_⟩
  · exact (List.map_map).trans (List.map_id _)
  · rintro _ member own
    obtain ⟨q, listed, rfl⟩ := List.mem_map.mp member
    exact ⟨Or.inr ⟨q, listed, own, (Int.sub_zero _).symm⟩, few q listed⟩
  · obtain ⟨q, listed, own⟩ := waits
    exact Or.inl ⟨_, List.mem_map_of_mem listed, own⟩

/-- New updates may come behind. -/
theorem Follows.queued {more : List (Nat × PendingDag)} (follows : Follows m₀ i t m)
    (queue : m'.pendingDags = m.pendingDags ++ more) (fresh : ∀ q ∈ more, q.2.requeueRetries = 0) :
    Follows m₀ i (t.queued m m') m' := by
  rw [Trail.queued, queue, List.drop_left]
  refine ⟨?_, fun q member own => ?_, follows.spent, ?_⟩
  · rw [Mirrors, queue, List.map_append, follows.mirrors, List.map_map]
    exact congrArg (m.pendingDags ++ ·) (List.map_id _)
  · rcases List.mem_append.mp member with old | new
    · exact follows.waiting q old own
    · obtain ⟨q, listed, rfl⟩ := List.mem_map.mp new
      have none := fresh q listed
      exact ⟨Or.inl (by simpa using none), none ▸ (by decide)⟩
  · exact follows.left.imp_left fun ⟨q, listed, own⟩ => ⟨q, List.mem_append_left _ listed, own⟩

/-- The updates of a run that has no row come back, as far as they are looked at, or are spent. -/
theorem Follows.passed (follows : Follows m₀ i t m) (missing : m.dag? i = none)
    (done : m.foldDags tenant share limit now = .ok (n, m')) :
    Follows m₀ i (t.note ⟨m, .foldDags tenant share limit now, taken, m'⟩) m' := by
  let due := takeDue (fun q => dagDue tenant share now q.2) limit t.queue
  let looked := firsts [] (due.1.map fun q => (q.1, q.2.2))
  have took : ∀ u ∈ looked, ∃ q ∈ t.queue, u = (q.1, q.2.2) := by
    intro u member
    obtain ⟨q, listed, rfl⟩ := List.mem_map.mp (firsts_sublist.subset member)
    exact ⟨q, mem_takeDue.mpr (Or.inl listed), rfl⟩
  refine ⟨follows.mirrors.passed done, fun q member own => ?_, fun u member own => ?_, ?_⟩
  · rcases List.mem_append.mp member with kept | back
    · exact follows.waiting q (mem_takeDue.mpr (Or.inr kept)) own
    · obtain ⟨u, returned, rfl⟩ := List.mem_map.mp back
      obtain ⟨missed, returns⟩ := List.mem_filter.mp returned
      obtain ⟨q, listed, rfl⟩ := took u (List.mem_filter.mp missed).1
      obtain ⟨began, -⟩ := follows.waiting q listed own
      refine ⟨?_, of_decide_eq_true returns⟩
      change Began m₀ i (q.2.2.requeueRetries + 1 - (q.1 + 1 : Nat))
      rwa [show q.2.2.requeueRetries + 1 - ((q.1 + 1 : Nat) : Int) = q.2.2.requeueRetries - q.1 by omega]
  · rcases List.mem_append.mp member with old | new
    · exact follows.spent u old own
    · obtain ⟨missed, stays⟩ := List.mem_filter.mp new
      obtain ⟨q, listed, rfl⟩ := took u (List.mem_filter.mp missed).1
      obtain ⟨began, few⟩ := follows.waiting q listed own
      have often : ¬ q.2.2.requeueRetries < maxRequeues := by
        simpa [PendingDag.returns] using stays
      exact ⟨began, Int.le_antisymm few (Int.not_lt.mp often)⟩
  · rcases follows.left with ⟨q, listed, own⟩ | ⟨u, old, own⟩
    · rcases mem_takeDue.mp listed with here | kept
      · obtain ⟨u, looked, same⟩ := mem_firsts (List.mem_map_of_mem (f := fun q => (q.1, q.2.2)) here)
        have own : u.2.dagId = i := same.trans own
        have missed : m.misses u.2 = true := by rw [misses, own, missing]; rfl
        have among := (List.mem_filter (p := fun u => m.misses u.2)).mpr ⟨looked, missed⟩
        cases returns : u.2.returns with
        | true =>
          exact Or.inl ⟨_, List.mem_append_right _ (List.mem_map_of_mem
            (List.mem_filter.mpr ⟨among, returns⟩)), own⟩
        | false =>
          exact Or.inr ⟨u, List.mem_append_right _ (List.mem_filter.mpr ⟨among, by simp [returns]⟩), own⟩
      · exact Or.inl ⟨q, List.mem_append_left _ kept, own⟩
    · exact Or.inr ⟨u, List.mem_append_left _ old, own⟩

theorem Follows.step (follows : Follows m₀ i t m) (dealt : m.Dealt) (missing : m.dag? i = none)
    (done : m.perform op = .ok (taken, m')) : Follows m₀ i (t.note ⟨m, op, taken, m'⟩) m' := by
  rcases perform_queue dealt done with ⟨_, _, _, _, _, rfl, folded⟩ | ⟨other, more, queue, fresh⟩
  · exact follows.passed missing folded
  · have noted : t.note ⟨m, op, taken, m'⟩ = t.queued m m' := by
      cases op with
      | foldDags tenant share limit now => exact absurd rfl (other tenant share limit now)
      | _ => rfl
    exact noted ▸ follows.queued queue fresh

end Trail

/-- The trail of some operations, which begins where they begin. -/
def trail (m₁ : ReadModel) (later : List Operation) : Trail :=
  (steps (.sound m₁) later).foldl Trail.note (.start m₁)

theorem after_pass (before : after partitions days ops = .sound m₀)
    (pass : m₀.foldTasks tenant share limit now = .ok (n, m₁)) (later : List Operation) :
    after partitions days (ops ++ .foldTasks tenant share limit now :: later) =
      advance (.sound m₁) later := by
  have first : advance (.sound m₀) [.foldTasks tenant share limit now] = .sound m₁ := by
    simp only [advance, List.foldl_cons, List.foldl_nil, Guarded.write, perform, pass]
    rfl
  rw [← List.singleton_append, after_append, before, advance_append, first]

theorem trail_follows (before : after partitions days ops = .sound m₀)
    (pass : m₀.foldTasks tenant share limit now = .ok (n, m₁)) (waits : m₁.DagWaits i)
    (missing : ∀ mid, mid <+: later → dagRow? (advance (.sound m₁) mid) i = none)
    (readable : advance (.sound m₁) later = .sound m) : (trail m₁ later).Follows m₁ i m := by
  induction later using List.reverseRecOn generalizing m with
  | nil =>
    cases readable
    exact Trail.follows_start waits (after_few (after_pass before pass []))
  | append_singleton later op ih =>
    have shorter := List.prefix_append later [op]
    obtain ⟨m₂, earlier, changed⟩ := steps_concat readable
    have follows := ih (fun mid leads => missing mid (leads.trans shorter)) earlier
    rcases changed with ⟨rfl, same⟩ | ⟨taken, done, more⟩
    · rw [trail, same]
      exact follows
    · have absent := missing later shorter
      rw [earlier] at absent
      rw [trail, more, List.foldl_append]
      exact follows.step (after_dealt ((after_pass before pass later).trans earlier)) absent done

/-- A pass that moves a task of a run leaves a new update, and as long as the run has no row an update
waits. If not, one was spent: it had been put back ten times, of which those count that it had behind it
when the pass was made. -/
theorem waits_or_spent (before : after partitions days ops = .sound m₀)
    (pass : m₀.foldTasks tenant share limit now = .ok (n, m₁))
    (moved : m₁.dagStatuses i ≠ m₀.dagStatuses i)
    (missing : ∀ mid, mid <+: later → dagRow? (advance (.sound m₁) mid) i = none)
    (readable : advance (.sound m₁) later = .sound m) :
    (∃ q ∈ m₁.pendingDags, q.2.dagId = i ∧ q.2.requeueRetries = 0) ∧
    ((∃ q ∈ m.pendingDags, q.2.dagId = i) ∨
      ∃ k d, (k, d) ∈ (trail m₁ later).spent ∧ d.dagId = i ∧ ∃ r : Int, k + r = maxRequeues ∧
        (r = 0 ∨ ∃ q ∈ m₁.pendingDags, q.2.dagId = i ∧ q.2.requeueRetries = r)) := by
  have fresh := foldTasks_fresh (after_ordered before).1 pass moved
  have ⟨q, listed, own, _⟩ := fresh
  obtain ⟨mirrors, -, spent, left⟩ := trail_follows before pass ⟨q, listed, own⟩ missing readable
  refine ⟨fresh, left.imp ?_ ?_⟩
  · rintro ⟨q, listed, own⟩
    exact ⟨q.2, mirrors ▸ List.mem_map_of_mem listed, own⟩
  · rintro ⟨⟨k, d⟩, gone, own⟩
    obtain ⟨began, often⟩ := spent _ gone own
    have whole : k + (d.requeueRetries - k) = d.requeueRetries := by omega
    exact ⟨k, d, gone, own, d.requeueRetries - k, whole.trans often, began⟩

/-- A run is told of, but has no row when its update is passed over ten times; then its task ends. -/
def weary : List Operation :=
  [.attachPartition .tasks Instant.epoch.date, .attachPartition .runs Instant.epoch.date,
    .createTasks default [{ (default : Task) with id := 1, dagId := some 7 }],
    .insertEvents .epoch default
      [{ (default : TaskEvent) with taskId := 1, eventType := .started, status := .running }],
    .foldTasks default 0 10 .epoch] ++
  (List.range 10).map (fun k => .foldDags default 0 10 ⟨k * 3600000000000⟩) ++
  [.insertEvents (noon 1) default
    [{ (default : TaskEvent) with taskId := 1, eventType := .finished, status := .completed }]]

/-- The new update goes with the one that has come back ten times, though it never came back itself. -/
theorem weary_spent : ∃ n m₀ m₁ m, after 1 7 weary = .sound m₀ ∧
    m₀.foldTasks default 0 10 (noon 1) = .ok (n, m₁) ∧
    m₀.dagStatuses 7 = [.running] ∧ m₁.dagStatuses 7 = [.completed] ∧
    m₁.pendingDags.map (·.2.requeueRetries) = [10, 0] ∧
    advance (.sound m₁) [.foldDags default 0 10 (noon 1)] = .sound m ∧ m.pendingDags = [] ∧
    (trail m₁ [.foldDags default 0 10 (noon 1)]).spent.map (·.1) = [0] ∧
    ∃ k d, (k, d) ∈ (trail m₁ [.foldDags default 0 10 (noon 1)]).spent ∧ d.dagId = 7 ∧
      ∃ r : Int, k + r = maxRequeues ∧
        (r = 0 ∨ ∃ q ∈ m₁.pendingDags, q.2.dagId = 7 ∧ q.2.requeueRetries = r) := by
  obtain ⟨n, m₀, m₁, m, before, pass, running, completed, counts, readable, empty, once, absent, gone⟩ :
      ∃ n m₀ m₁ m, after 1 7 weary = .sound m₀ ∧ m₀.foldTasks default 0 10 (noon 1) = .ok (n, m₁) ∧
        m₀.dagStatuses 7 = [.running] ∧ m₁.dagStatuses 7 = [.completed] ∧
        m₁.pendingDags.map (·.2.requeueRetries) = [10, 0] ∧
        advance (.sound m₁) [.foldDags default 0 10 (noon 1)] = .sound m ∧ m.pendingDags = [] ∧
        (trail m₁ [.foldDags default 0 10 (noon 1)]).spent.map (·.1) = [0] ∧
        m₁.dag? 7 = none ∧ m.dag? 7 = none :=
    ⟨_, _, _, _, rfl, rfl, rfl, rfl, rfl, rfl, rfl, rfl, rfl, rfl⟩
  have missing : ∀ mid, mid <+: [Operation.foldDags default 0 10 (noon 1)] →
      dagRow? (advance (.sound m₁) mid) 7 = none := by
    intro mid leads
    cases mid with
    | nil => exact absent
    | cons op rest =>
      obtain ⟨rfl, none⟩ := List.cons_prefix_cons.mp leads
      rw [List.prefix_nil.mp none, readable]
      exact gone
  have moved : m₁.dagStatuses 7 ≠ m₀.dagStatuses 7 := by
    rw [running, completed]
    decide
  obtain ⟨-, ⟨q, waits, -⟩ | spent⟩ := waits_or_spent before pass moved missing readable
  · rw [empty] at waits
    cases waits
  · exact ⟨n, m₀, m₁, m, before, pass, running, completed, counts, readable, empty, once, spent⟩

end ReadModel

end WorkflowEngine
