import Mathlib.Data.List.Chain
import WorkflowEngine.Proofs.ReadModel.Queue
import WorkflowEngine.Proofs.ReadModel.Status

/-!
What becomes of an event that was logged. A journal keeps the place in the log with each event of the
queue, and notes what passes take. Without the places it is the queue. By it an event waits, has been
consumed while its task had a row, or has been dropped when it had come back ten times.
-/

namespace WorkflowEngine.ReadModel

open Fallible

/-! ### The journal -/

/-- An event that a pass has taken. -/
structure Taking where
  /-- The place of the event in the log. -/
  place : Nat
  event : Pending
  now : Instant
  /-- The task of the event had a row. -/
  rowed : Bool
  /-- How the event came back, if it did. -/
  again : Option Pending

namespace Taking

def drops (t : Taking) : Bool := !t.rowed && t.again.isNone

def returns (t : Taking) : Bool := !t.rowed && t.again.isSome

end Taking

/-- The queue with the place of each event in the log, and what has been taken from it. -/
structure Journal where
  queue : List (Nat × Nat × Pending) := []
  takings : List Taking := []

variable {m m' : ReadModel} {j j' : Journal} {e : TaskEvent} {k n place share limit : Nat}
  {now : Instant} {tenant : TenantId} {op : Operation} {taken : List Pending}

def takingOf (m : ReadModel) (now : Instant) (q : Nat × Nat × Pending) : Taking where
  place := q.1
  event := q.2.2
  now := now
  rowed := (m.task? q.2.2.taskId).isSome
  again := m.again? now q.2.2

namespace Journal

/-- The queue entries of new events. -/
def entered (m : ReadModel) (now : Instant) (own : List TaskEvent) : List (Nat × Nat × Pending) :=
  (own.zipIdx m.events.length).map fun (e, place) => (place, m.share e.taskId, .ofEvent e now)

/-- The journal after an operation that goes well. -/
def note (j : Journal) (m : ReadModel) : Operation → Journal
  | .insertEvents now tenant events =>
    { j with queue := j.queue ++ entered m now (events.filter (·.tenantId == tenant)) }
  | .foldTasks tenant share limit now =>
    let due := takeDue (fun q => eventDue tenant share now q.2) limit j.queue
    let taken := due.1.map (m.takingOf now)
    { queue := due.2 ++ taken.filterMap fun t => t.again.map fun p => (t.place, share, p)
      takings := j.takings ++ taken }
  | _ => j

/-- What waits of the event at a place of the log. -/
def waits (j : Journal) (place : Nat) : List (Nat × Nat × Pending) := j.queue.filter (·.1 == place)

/-- What has been taken of the event at a place of the log. -/
def takingsOf (j : Journal) (place : Nat) : List Taking := j.takings.filter (·.place == place)

end Journal

/-- The read model and its journal after one more operation, with all that passes have taken. -/
def keepJournal (seen : Guarded ReadModel × Journal × List Pending) (op : Operation) :
    Guarded ReadModel × Journal × List Pending :=
  match seen.1.write (·.perform op) with
  | (.ok taken, g) =>
    (g, seen.1.get.toOption.elim seen.2.1 fun m => seen.2.1.note m op, seen.2.2 ++ taken)
  | (.error _, g) => (g, seen.2)

def journaled (partitions days : Nat) (ops : List Operation) : Journal × List Pending :=
  (ops.foldl keepJournal (.sound (.ofLimits partitions days), {}, [])).2

/-- The journal of a run of operations. -/
def journal (partitions days : Nat) (ops : List Operation) : Journal := (journaled partitions days ops).1

/-- All events that passes have taken in a run of operations, as they told. -/
def takenIn (partitions days : Nat) (ops : List Operation) : List Pending :=
  (journaled partitions days ops).2

variable {partitions days : Nat} {ops : List Operation}

theorem keepJournal_model (seen : Guarded ReadModel × Journal × List Pending) :
    (keepJournal seen op).1 = (seen.1.write (·.perform op)).2 := by
  unfold keepJournal
  split <;> rename_i written <;> rw [written]

theorem journaled_model : (ops.foldl keepJournal (.sound (.ofLimits partitions days), {}, [])).1 =
    after partitions days ops :=
  (List.foldl_hom Prod.fst fun seen _ => (keepJournal_model seen).symm).symm

theorem journaled_concat (readable : after partitions days (ops ++ [op]) = .sound m') :
    ∃ m, after partitions days ops = .sound m ∧
      ((m' = m ∧ journaled partitions days (ops ++ [op]) = journaled partitions days ops) ∨
        ∃ taken, m.perform op = .ok (taken, m') ∧ journaled partitions days (ops ++ [op]) =
          ((journal partitions days ops).note m op, takenIn partitions days ops ++ taken)) := by
  have last : journaled partitions days (ops ++ [op]) =
      (keepJournal (after partitions days ops, journaled partitions days ops) op).2 := by
    rw [journaled, List.foldl_append, ← journaled_model]
    rfl
  obtain ⟨m, before, _⟩ := after_concat readable
  refine ⟨m, before, ?_⟩
  rw [after, List.foldl_append] at readable
  change ((after partitions days ops).write _).2 = _ at readable
  rw [before] at readable last
  rw [last, keepJournal]
  unfold Guarded.write at readable ⊢
  simp only at readable ⊢
  cases done : m.perform op with
  | ok result =>
    obtain ⟨taken, m₁⟩ := result
    rw [done] at readable
    cases readable
    exact Or.inr ⟨taken, rfl, rfl⟩
  | error fault =>
    rw [done] at readable
    refine Or.inl ⟨?_, rfl⟩
    cases fault <;> cases readable <;> rfl

/-! ### The journal without the places -/

/-- What an operation may do to the log, to the queue and to the journal, with the events it takes. -/
inductive Noted (m : ReadModel) (j : Journal) : List Pending → ReadModel → Journal → Prop where
  | aside {m' : ReadModel} (log : m'.events = m.events) (pending : m'.pendingEvents = m.pendingEvents) :
      Noted m j [] m' j
  | logged (now : Instant) (tenant : TenantId) (events : List TaskEvent) :
      Noted m j [] (m.insertEvents now tenant events) (j.note m (.insertEvents now tenant events))
  | passed {tenant : TenantId} {share limit n : Nat} {now : Instant} {m' : ReadModel}
      (done : m.foldTasks tenant share limit now = .ok (n, m')) :
      Noted m j (m.due tenant share limit now) m' (j.note m (.foldTasks tenant share limit now))

theorem perform_noted (j : Journal) (done : m.perform op = .ok (taken, m')) :
    Noted m j taken m' (j.note m op) := by
  cases performs done with
  | createTasks created =>
    rw [createTasks_rows created]
    exact .aside (addTasks_same m _).1 (addTasks_same m _).2
  | createDags created => exact .aside (createDags_same created).2.1 (createDags_same created).2.2
  | insertEvents now tenant events => exact .logged now tenant events
  | foldTasks folded => exact .passed folded
  | foldDags folded => exact .aside (foldDags_same folded).2.1 (foldDags_same folded).2.2
  | maintain now => exact .aside (maintain_same m now).2.1 (maintain_same m now).2.2
  | attachPartition => exact .aside rfl rfl

/-- The journal has the queue of the read model. -/
def Journal.Mirrors (j : Journal) (m : ReadModel) : Prop := j.queue.map (·.2) = m.pendingEvents

theorem Journal.Mirrors.due (mirrors : j.Mirrors m) : m.due tenant share limit now =
    (takeDue (fun q => eventDue tenant share now q.2) limit j.queue).1.map (·.2.2) := by
  rw [ReadModel.due, ← mirrors, takeDue_map, List.map_map]
  rfl

theorem Noted.mirrors (noted : Noted m j taken m' j') (mirrors : j.Mirrors m) : j'.Mirrors m' := by
  cases noted with
  | aside _ pending => exact mirrors.trans pending.symm
  | logged now tenant events =>
    have entered : (Journal.entered m now (events.filter (·.tenantId == tenant))).map (·.2) =
        (events.filter (·.tenantId == tenant)).map fun e => (m.share e.taskId, .ofEvent e now) := by
      conv_rhs => rw [← List.zipIdx_map_fst m.events.length (events.filter (·.tenantId == tenant))]
      simp only [Journal.entered, List.map_map]
      rfl
    exact (List.map_append).trans (congrArg₂ (· ++ ·) mirrors entered)
  | @passed tenant share limit n now m' done =>
    have kept : (takeDue (fun q => eventDue tenant share now q.2) limit j.queue).2.map (·.2) =
        (takeDue (eventDue tenant share now) limit m.pendingEvents).2 := by
      rw [← mirrors, takeDue_map]
      rfl
    rw [Journal.Mirrors, (foldTasks_queue done).2.2, mirrors.due, ← kept]
    simp [Journal.note, takingOf, List.filterMap_map, List.map_filterMap, Function.comp_def]

theorem Noted.takings (noted : Noted m j taken m' j') (mirrors : j.Mirrors m) :
    j'.takings.map (·.event) = j.takings.map (·.event) ++ taken := by
  cases noted with
  | aside | logged => exact (List.append_nil _).symm
  | passed done =>
    rw [mirrors.due]
    simp [Journal.note, takingOf]

/-- Without the places the journal has what waits, and what was taken, of the read model itself. -/
theorem journal_mirrors (readable : after partitions days ops = .sound m) :
    (journal partitions days ops).Mirrors m ∧
      (journal partitions days ops).takings.map (·.event) = takenIn partitions days ops := by
  induction ops using List.reverseRecOn generalizing m with
  | nil =>
    cases readable
    exact ⟨rfl, rfl⟩
  | append_singleton ops op ih =>
    obtain ⟨m₁, before, changed⟩ := journaled_concat readable
    obtain ⟨mirrors, takings⟩ := ih before
    rw [journal, takenIn]
    rcases changed with ⟨rfl, same⟩ | ⟨taken, done, noted⟩
    · rw [same]
      exact ⟨mirrors, takings⟩
    · rw [noted]
      have step := perform_noted (journal partitions days ops) done
      exact ⟨step.mirrors mirrors, (step.takings mirrors).trans (congrArg (· ++ taken) takings)⟩

/-! ### The course of one event -/

/-- The event of the log, put back some times. -/
def Recalls (e : TaskEvent) (k : Nat) (p : Pending) : Prop :=
  p = { Pending.ofEvent e p.requeueAfter with requeueRetries := k }

/-- What has come back is not taken before it is due. -/
def Taking.Before (t t' : Taking) : Prop := ∃ p, t.again = some p ∧ p.requeueAfter ≤ t'.now

/-- Takings after which the event came back, due after a delay that doubles each time. -/
structure Returns (e : TaskEvent) (back : List Taking) : Prop where
  few : back.length ≤ 10
  each : ∀ k t, back[k]? = some t → t.rowed = false ∧ Recalls e k t.event ∧
    ∃ p, t.again = some p ∧ Recalls e (k + 1) p ∧
      p.requeueAfter.nanos = t.now.nanos + 2 ^ (k + 1) * 1000000000
  patient : back.IsChain Taking.Before

/-- What waits of an event and what has been taken of it. -/
inductive Course (e : TaskEvent) : List (Nat × Nat × Pending) → List Taking → Prop where
  | waits {place share : Nat} {p : Pending} {back : List Taking} (returns : Returns e back)
      (recalls : Recalls e back.length p) (last : ∀ t ∈ back.getLast?, t.again = some p) :
      Course e [(place, share, p)] back
  | consumed {t : Taking} {back : List Taking} (returns : Returns e back)
      (recalls : Recalls e back.length t.event) (ready : ∀ t' ∈ back.getLast?, t'.Before t)
      (rowed : t.rowed = true) (again : t.again = none) : Course e [] (back ++ [t])
  | dropped {t : Taking} {back : List Taking} (returns : Returns e back)
      (recalls : Recalls e back.length t.event) (ready : ∀ t' ∈ back.getLast?, t'.Before t)
      (often : back.length = 10) (missing : t.rowed = false) (again : t.again = none) :
      Course e [] (back ++ [t])

theorem chain_concat {back : List Taking} {t : Taking} (patient : back.IsChain Taking.Before)
    (ready : ∀ t' ∈ back.getLast?, t'.Before t) : (back ++ [t]).IsChain Taking.Before := by
  refine List.isChain_append.mpr ⟨patient, List.isChain_singleton t, fun t' last t'' first => ?_⟩
  cases first
  exact ready t' last

theorem Returns.concat {back : List Taking} {t : Taking} {p : Pending} (returns : Returns e back)
    (more : back.length < 10) (recalls : Recalls e back.length t.event)
    (ready : ∀ t' ∈ back.getLast?, t'.Before t) (missing : t.rowed = false) (again : t.again = some p)
    (returned : Recalls e (back.length + 1) p)
    (delay : p.requeueAfter.nanos = t.now.nanos + 2 ^ (back.length + 1) * 1000000000) :
    Returns e (back ++ [t]) := by
  refine ⟨?_, fun k t' here => ?_, chain_concat returns.patient ready⟩
  · rw [List.length_append, List.length_singleton]
    exact more
  · rw [List.getElem?_append] at here
    split at here
    · exact returns.each k t' here
    · rw [List.getElem?_singleton] at here
      split at here
      · rename_i last
        cases here
        rw [show k = back.length by omega]
        exact ⟨missing, recalls, p, again, returned, delay⟩
      · cases here

/-- When a waiting event is taken it is consumed, it comes back or it is dropped. -/
theorem Returns.course {back : List Taking} {p : Pending} {share' : Nat} (returns : Returns e back)
    (recalls : Recalls e back.length p) (last : ∀ t ∈ back.getLast?, t.again = some p)
    (due : eventDue tenant share now (share', p) = true)
    (done : m.task? p.taskId = none → ∃ o, p.requeued now = .ok o) :
    Course e ([m.takingOf now (place, share', p)].filterMap fun t =>
        t.again.map fun p => (t.place, share, p))
      (back ++ [m.takingOf now (place, share', p)]) := by
  have retries : p.requeueRetries = back.length := congrArg Pending.requeueRetries recalls
  have ready : ∀ t ∈ back.getLast?, t.Before (m.takingOf now (place, share', p)) := by
    intro t member
    refine ⟨p, last t member, ?_⟩
    simp only [eventDue, Bool.and_eq_true, Bool.or_eq_true, beq_iff_eq, decide_eq_true_eq] at due
    rcases due.2 with fresh | due
    · rw [List.length_eq_zero_iff.mp (Int.natCast_eq_zero.mp (retries.symm.trans fresh))] at member
      cases member
    · exact due
  by_cases row : (m.task? p.taskId).isSome = true
  · have again : m.again? now p = none := if_pos row
    have none : (m.takingOf now (place, share', p)).again = none := again
    rw [List.filterMap_cons, none]
    exact .consumed returns recalls ready row again
  · have missing : (m.takingOf now (place, share', p)).rowed = false := Bool.eq_false_iff.mpr row
    obtain ⟨o, requeued⟩ := done (Option.not_isSome_iff_eq_none.mp row)
    have again : (m.takingOf now (place, share', p)).again = o := by
      change m.again? now p = o
      rw [again?, if_neg row, requeued]
      rfl
    rw [List.filterMap_cons, again]
    cases o with
    | none =>
      have often := Pending.requeued_none requeued
      have few := returns.few
      refine .dropped returns recalls ready ?_ missing again
      rw [retries, maxRequeues] at often
      omega
    | some q =>
      obtain ⟨more, rfl⟩ := Pending.requeued_some requeued
      have more : back.length < 10 := by
        rw [retries, maxRequeues] at more
        omega
      have returned : Recalls e (back.length + 1) { p with
          requeueAfter := ⟨now.nanos + requeueDelay p.requeueRetries * 1000000000⟩
          requeueRetries := p.requeueRetries + 1 } := by
        unfold Recalls
        rw [recalls]
        rfl
      refine .waits (returns.concat more recalls ready missing again returned ?_) ?_ ?_
      · rw [retries, requeueDelay_exact more]
        rfl
      · rw [List.length_append, List.length_singleton]
        exact returned
      · rw [List.getLast?_concat]
        rintro t ⟨⟩
        exact again

/-! ### All events -/

/-- Every event of the log has a course, and nothing else is in the journal. -/
structure Traced (m : ReadModel) (j : Journal) : Prop where
  course : ∀ place e, m.events[place]? = some e → Course e (j.waits place) (j.takingsOf place)
  beyond : ∀ place, m.events[place]? = none → j.waits place = [] ∧ j.takingsOf place = []

theorem filter_zipIdx {α : Type} (l : List α) (start place : Nat) :
    (l.zipIdx start).filter (·.2 == place) =
      if start ≤ place then (l[place - start]?).toList.map (·, place) else [] := by
  induction l generalizing start with
  | nil => simp
  | cons a rest ih =>
    rw [List.zipIdx_cons, List.filter_cons, ih]
    rcases Nat.lt_trichotomy start place with less | rfl | more
    · have later : place - start = (place - (start + 1)) + 1 := by omega
      simp [Nat.ne_of_lt less, Nat.le_of_lt less, Nat.succ_le_of_lt less, later]
    · simp
    · simp [Nat.ne_of_gt more, Nat.not_le.mpr more, show ¬ start + 1 ≤ place by omega]

theorem entered_at (m : ReadModel) (now : Instant) (own : List TaskEvent) (place : Nat) :
    (Journal.entered m now own).filter (·.1 == place) =
      if m.events.length ≤ place then (own[place - m.events.length]?).toList.map fun e =>
        (place, m.share e.taskId, .ofEvent e now)
      else [] := by
  have here := filter_zipIdx own m.events.length place
  rw [Journal.entered, List.filter_map]
  change ((own.zipIdx m.events.length).filter (·.2 == place)).map _ = _
  rw [here]
  split
  · rw [List.map_map]
    rfl
  · rfl

theorem note_takings (j : Journal) (m : ReadModel) (tenant : TenantId) (share limit : Nat) (now : Instant)
    (place : Nat) : (j.note m (.foldTasks tenant share limit now)).takingsOf place = j.takingsOf place ++
      ((takeDue (fun q => eventDue tenant share now q.2) limit j.queue).1.filter (·.1 == place)).map
        (m.takingOf now) := by
  rw [Journal.takingsOf, Journal.note, List.filter_append, List.filter_map]
  rfl

theorem note_waits (j : Journal) (m : ReadModel) (tenant : TenantId) (share limit : Nat) (now : Instant)
    (place : Nat) : (j.note m (.foldTasks tenant share limit now)).waits place =
      (takeDue (fun q => eventDue tenant share now q.2) limit j.queue).2.filter (·.1 == place) ++
      (((takeDue (fun q => eventDue tenant share now q.2) limit j.queue).1.filter (·.1 == place)).map
        (m.takingOf now)).filterMap fun t => t.again.map fun p => (t.place, share, p) := by
  rw [Journal.waits, Journal.note, List.filter_append, List.filter_filterMap, List.filterMap_map,
    List.filterMap_map, List.filterMap_filter]
  refine congrArg (_ ++ ·) (List.filterMap_congr fun q _ => ?_)
  change Option.filter _ ((m.again? now q.2.2).map _) =
    if (q.1 == place) = true then (m.again? now q.2.2).map _ else none
  cases m.again? now q.2.2 with
  | none => simp
  | some p => simp [Option.filter]; rfl

theorem Course.entered (e : TaskEvent) (place share : Nat) (now : Instant) :
    Course e [(place, share, .ofEvent e now)] [] :=
  .waits ⟨Nat.zero_le _, fun _ _ => nofun, .nil⟩ rfl fun _ => nofun

theorem Traced.insertEvents (traced : m.Traced j) (now : Instant) (tenant : TenantId)
    (events : List TaskEvent) :
    (m.insertEvents now tenant events).Traced (j.note m (.insertEvents now tenant events)) := by
  have waits (place : Nat) : (j.note m (.insertEvents now tenant events)).waits place =
      j.waits place ++ (Journal.entered m now (events.filter (·.tenantId == tenant))).filter
        (·.1 == place) := List.filter_append _ _
  have log : (m.insertEvents now tenant events).events =
      m.events ++ events.filter (·.tenantId == tenant) := rfl
  refine ⟨fun place e here => ?_, fun place none => ?_⟩
  · rw [waits, entered_at]
    rw [log, List.getElem?_append] at here
    by_cases old : place < m.events.length
    · rw [if_pos old] at here
      rw [if_neg (Nat.not_le.mpr old), List.append_nil]
      exact traced.course place e here
    · rw [if_neg old] at here
      obtain ⟨nothing, untaken⟩ :=
        traced.beyond place (List.getElem?_eq_none_iff.mpr (Nat.not_lt.mp old))
      have untaken : (j.note m (.insertEvents now tenant events)).takingsOf place = [] := untaken
      rw [if_pos (Nat.not_lt.mp old), nothing, here, untaken]
      exact .entered e place (m.share e.taskId) now
  · rw [List.getElem?_eq_none_iff, log, List.length_append] at none
    obtain ⟨nothing, untaken⟩ := traced.beyond place (List.getElem?_eq_none_iff.mpr (by omega))
    refine ⟨?_, untaken⟩
    rw [waits, entered_at, nothing, List.getElem?_eq_none (by omega)]
    split <;> rfl

theorem Traced.foldTasks (traced : m.Traced j) (mirrors : j.Mirrors m)
    (done : m.foldTasks tenant share limit now = .ok (n, m')) :
    m'.Traced (j.note m (.foldTasks tenant share limit now)) := by
  have log := (foldTasks_same done).1
  let due : Nat × Nat × Pending → Bool := fun q => eventDue tenant share now q.2
  refine ⟨fun place e here => ?_, fun place none => ?_⟩
  · rw [log] at here
    have course := traced.course place e here
    rw [note_takings, note_waits]
    generalize j.takingsOf place = takings at course
    generalize queue : j.waits place = waits at course
    cases course with
    | @waits place' share' p _ returns recalls last =>
      rcases takeDue_one due limit queue with ⟨taken, kept, ripe⟩ | ⟨taken, kept⟩
      · rw [taken, kept]
        refine returns.course recalls last ripe fun missing => ?_
        refine (foldTasks_queue done).2.1 p ?_ missing
        rw [mirrors.due]
        have member : (place', share', p) ∈ (takeDue due limit j.queue).1.filter (·.1 == place) :=
          taken ▸ List.mem_singleton_self _
        exact List.mem_map_of_mem (List.mem_filter.mp member).1
      · rw [taken, kept, List.map_nil, List.append_nil]
        exact .waits returns recalls last
    | consumed returns recalls ready rowed again =>
      obtain ⟨taken, kept⟩ := takeDue_none due limit queue
      rw [taken, kept, List.map_nil, List.append_nil]
      exact .consumed returns recalls ready rowed again
    | dropped returns recalls ready often missing again =>
      obtain ⟨taken, kept⟩ := takeDue_none due limit queue
      rw [taken, kept, List.map_nil, List.append_nil]
      exact .dropped returns recalls ready often missing again
  · rw [log] at none
    obtain ⟨waits, takings⟩ := traced.beyond place none
    obtain ⟨taken, kept⟩ := takeDue_none due limit waits
    rw [note_takings, note_waits, takings, taken, kept]
    exact ⟨rfl, rfl⟩

theorem Noted.traced (noted : Noted m j taken m' j') (mirrors : j.Mirrors m) (traced : m.Traced j) :
    m'.Traced j' := by
  cases noted with
  | aside log => exact ⟨log ▸ traced.course, log ▸ traced.beyond⟩
  | logged now tenant events => exact traced.insertEvents now tenant events
  | passed done => exact traced.foldTasks mirrors done

theorem journal_traced (readable : after partitions days ops = .sound m) :
    m.Traced (journal partitions days ops) := by
  induction ops using List.reverseRecOn generalizing m with
  | nil =>
    cases readable
    exact ⟨fun _ _ => nofun, fun _ _ => ⟨rfl, rfl⟩⟩
  | append_singleton ops op ih =>
    obtain ⟨m₁, before, changed⟩ := journaled_concat readable
    rw [journal]
    rcases changed with ⟨rfl, same⟩ | ⟨taken, done, noted⟩
    · rw [same]
      exact ih before
    · rw [noted]
      exact (perform_noted _ done).traced (journal_mirrors before).1 (ih before)

/-! ### What becomes of an event -/

/-- The account of the event at a place of the log: it waits once, was consumed or was dropped, and how
it came back until then. -/
structure Accounted (j : Journal) (place : Nat) (e : TaskEvent) : Prop where
  once : (j.waits place).length + ((j.takingsOf place).filter (·.rowed)).length +
    ((j.takingsOf place).filter (·.drops)).length = 1
  recalled : ∀ t ∈ j.takingsOf place, ∃ k, Recalls e k t.event
  waiting : ∀ q ∈ j.waits place,
    Recalls e ((j.takingsOf place).filter (·.returns)).length q.2.2 ∧
      ∀ t ∈ (j.takingsOf place).getLast?, t.again = some q.2.2
  exhausted : ∀ t ∈ j.takingsOf place, t.drops → ((j.takingsOf place).filter (·.returns)).length = 10
  delays : ∀ k t, ((j.takingsOf place).filter (·.returns))[k]? = some t → k ≤ 9 ∧
    ∃ p, t.again = some p ∧ p.requeueAfter.nanos = t.now.nanos + 2 ^ (k + 1) * 1000000000
  patient : (j.takingsOf place).IsChain Taking.Before

theorem Returns.kinds {back : List Taking} (returns : Returns e back) :
    back.filter (·.rowed) = [] ∧ back.filter (·.drops) = [] ∧ back.filter (·.returns) = back := by
  have each : ∀ t ∈ back, t.rowed = false ∧ t.again.isSome = true := by
    intro t member
    obtain ⟨k, here⟩ := List.getElem?_of_mem member
    obtain ⟨rowed, _, p, again, _⟩ := returns.each k t here
    exact ⟨rowed, again ▸ rfl⟩
  refine ⟨List.filter_eq_nil_iff.mpr ?_, List.filter_eq_nil_iff.mpr ?_, List.filter_eq_self.mpr ?_⟩
  · intro t member
    simp [each t member]
  · intro t member
    obtain ⟨rowed, again⟩ := each t member
    obtain ⟨p, again⟩ := Option.isSome_iff_exists.mp again
    simp [Taking.drops, again]
  · intro t member
    simp [Taking.returns, each t member]

theorem Returns.delays {back : List Taking} (returns : Returns e back) {t : Taking}
    (here : back[k]? = some t) : k ≤ 9 ∧
      ∃ p, t.again = some p ∧ p.requeueAfter.nanos = t.now.nanos + 2 ^ (k + 1) * 1000000000 := by
  obtain ⟨_, _, p, again, _, delay⟩ := returns.each k t here
  have within := (List.getElem?_eq_some_iff.mp here).1
  have few := returns.few
  exact ⟨by omega, p, again, delay⟩

theorem Returns.recalled {back : List Taking} (returns : Returns e back) :
    ∀ t ∈ back, ∃ k, Recalls e k t.event := by
  intro t member
  obtain ⟨k, here⟩ := List.getElem?_of_mem member
  exact ⟨k, (returns.each k t here).2.1⟩

theorem Returns.waits {back : List Taking} {q : Nat × Nat × Pending} (returns : Returns e back)
    (recalls : Recalls e back.length q.2.2) (last : ∀ t ∈ back.getLast?, t.again = some q.2.2)
    (waiting : j.waits place = [q]) (takings : j.takingsOf place = back) : Accounted j place e := by
  obtain ⟨rowed, drops, back⟩ := returns.kinds
  constructor <;> rw [takings]
  · rw [waiting, rowed, drops]
    rfl
  · exact returns.recalled
  · rw [waiting, back]
    exact List.forall_mem_singleton.mpr ⟨recalls, last⟩
  · intro t member dropped
    have none : t ∈ [] := drops ▸ List.mem_filter.mpr ⟨member, dropped⟩
    cases none
  · rw [back]
    exact fun k t => returns.delays
  · exact returns.patient

theorem Returns.ends {back : List Taking} {t : Taking} (returns : Returns e back)
    (recalls : Recalls e back.length t.event) (ready : ∀ t' ∈ back.getLast?, t'.Before t)
    (again : t.again = none) (often : t.rowed = false → back.length = 10)
    (waiting : j.waits place = []) (takings : j.takingsOf place = back ++ [t]) :
    Accounted j place e := by
  obtain ⟨rowed, drops, back'⟩ := returns.kinds
  have returned : (back ++ [t]).filter (·.returns) = back := by
    rw [List.filter_append, back']
    simp [Taking.returns, again]
  constructor <;> rw [takings]
  · rw [waiting, List.filter_append, List.filter_append, rowed, drops]
    cases kind : t.rowed <;> simp [Taking.drops, again, kind]
  · intro t' member
    rcases List.mem_append.mp member with earlier | here
    · exact returns.recalled t' earlier
    · rw [List.mem_singleton.mp here]
      exact ⟨_, recalls⟩
  · rw [waiting]
    exact List.forall_mem_nil _
  · intro t' member dropped
    rw [returned]
    rcases List.mem_append.mp member with earlier | here
    · have none : t' ∈ [] := drops ▸ List.mem_filter.mpr ⟨earlier, dropped⟩
      cases none
    · rw [List.mem_singleton.mp here, Taking.drops, Bool.and_eq_true, Bool.not_eq_true'] at dropped
      exact often dropped.1
  · rw [returned]
    exact fun k t => returns.delays
  · exact chain_concat returns.patient ready

theorem Course.accounted (course : Course e (j.waits place) (j.takingsOf place)) :
    Accounted j place e := by
  generalize waiting : j.waits place = waits at course
  generalize takings : j.takingsOf place = taken at course
  cases course with
  | waits returns recalls last => exact returns.waits recalls last waiting takings
  | consumed returns recalls ready rowed again =>
    refine returns.ends recalls ready again (fun missing => ?_) waiting takings
    rw [rowed] at missing
    cases missing
  | dropped returns recalls ready often _ again =>
    exact returns.ends recalls ready again (fun _ => often) waiting takings

/-- In any run each event that was logged waits in the queue just once, or a pass has consumed it while
its task had a row, or a pass has dropped it while its task had none and it had come back ten times. When
it comes back for the k-th time, counted from zero, it is due after 2^(k+1) seconds, and no pass takes it
before. -/
theorem events_accounted (readable : after partitions days ops = .sound m) :
    (journal partitions days ops).queue.map (·.2) = m.pendingEvents ∧
    (journal partitions days ops).takings.map (·.event) = takenIn partitions days ops ∧
    ∀ place e, m.events[place]? = some e → Accounted (journal partitions days ops) place e :=
  ⟨(journal_mirrors readable).1, (journal_mirrors readable).2,
    fun place e here => ((journal_traced readable).course place e here).accounted⟩

/-- So many seconds after the epoch. -/
def atSecond (second : Int) : Instant := ⟨second * 1000000000⟩

def toldEarly : TaskEvent :=
  { (default : TaskEvent) with taskId := 1, eventType := .started, status := .running }

/-- An event is told before its task has a row, and again for a task that never has one. -/
def lateRow : List Operation := [
  .attachPartition .tasks Instant.epoch.date,
  .attachPartition .runs Instant.epoch.date,
  .insertEvents (atSecond 0) default [toldEarly, { toldEarly with taskId := 2 }],
  .foldTasks default 0 10 (atSecond 0),
  .foldTasks default 0 10 (atSecond 1),
  .foldTasks default 0 10 (atSecond 2),
  .createTasks default [{ (default : Task) with id := 1 }],
  .foldTasks default 0 10 (atSecond 5),
  .foldTasks default 0 10 (atSecond 6)]

/-- The one event comes back twice and is consumed, the other waits for the fourth time. -/
theorem lateRow_accounted : ∃ m, after 1 7 lateRow = .sound m ∧
    ((journal 1 7 lateRow).takingsOf 0).map (fun t => (t.now.nanos, t.rowed)) =
      [(0, false), (2000000000, false), (6000000000, true)] ∧
    ((journal 1 7 lateRow).waits 1).map (fun q => (q.2.2.requeueRetries, q.2.2.requeueAfter.nanos)) =
      [(3, 14000000000)] ∧
    Accounted (journal 1 7 lateRow) 0 toldEarly ∧
      Accounted (journal 1 7 lateRow) 1 { toldEarly with taskId := 2 } := by
  obtain ⟨m, readable, log⟩ : ∃ m, after 1 7 lateRow = .sound m ∧
      m.events = [toldEarly, { toldEarly with taskId := 2 }] := ⟨_, rfl, rfl⟩
  obtain ⟨_, _, accounted⟩ := events_accounted readable
  rw [log] at accounted
  exact ⟨m, readable, by decide +kernel, by decide +kernel, accounted 0 _ rfl, accounted 1 _ rfl⟩

end WorkflowEngine.ReadModel
