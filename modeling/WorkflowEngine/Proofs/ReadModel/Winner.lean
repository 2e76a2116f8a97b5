import Mathlib.Data.List.Induction
import Mathlib.Data.List.Sort
import WorkflowEngine.Proofs.ReadModel.Fold

/-!
Which event of a task wins in a batch. It is the first one in the batch with the highest mark, and its
worker is made up for by another event of the attempt if it names none. Merging keeps this for the events
merged so far, whatever the attempt of the next one; so the mark does not depend on their order, but the
moment and the worker do.
-/

namespace WorkflowEngine

variable {batch other : List Pending} {fs fs' : List Folded} {f g : Folded} {p : Pending}

namespace Folded

/-- The event tells of the candidate's task what the candidate shows. -/
def shows (f : Folded) (p : Pending) : Bool := decide (p.place = f.place ∧ p.mark = f.mark)

/-- The event is one of the attempt that the candidate tells of. -/
def OfAttempt (f : Folded) (p : Pending) : Prop := p.place = f.place ∧ p.retryCount = f.retryCount

theorem shows_iff : f.shows p = true ↔ p.place = f.place ∧ p.mark = f.mark := decide_eq_true_iff

theorem ofAttempt_of_shows (shown : f.shows p = true) : f.OfAttempt p :=
  (shows_iff.mp shown).imp_right (congrArg Mark.retryCount)

/-- The moment is that of the first event that the candidate shows, and the worker is that event's or
else one that the attempt names. -/
structure Credits (batch : List Pending) (f : Folded) : Prop where
  first : ∃ p, batch.find? f.shows = some p ∧ f.timestamp = p.timestamp ∧
    (p.workerId.isSome → f.workerId = p.workerId)
  named : ∀ w, f.workerId = some w → ∃ p ∈ batch, f.OfAttempt p ∧ p.workerId = some w
  unnamed : f.workerId = none → ∀ p ∈ batch, f.OfAttempt p → p.workerId = none

/-- An event of another attempt, or of another task, does not matter. -/
theorem Credits.skip (credits : Credits batch f) (apart : ¬ f.OfAttempt p) :
    Credits (batch ++ [p]) f := by
  obtain ⟨⟨q, found, said⟩, named, unnamed⟩ := credits
  refine ⟨⟨q, ?_, said⟩, fun w told => ?_, fun none q hq mine => ?_⟩
  · rw [List.find?_append, found, Option.some_or]
  · obtain ⟨q, hq, mine⟩ := named w told
    exact ⟨q, List.mem_append_left _ hq, mine⟩
  · rcases List.mem_append.mp hq with earlier | new
    · exact unnamed none q earlier mine
    · rw [List.mem_singleton.mp new] at mine
      exact absurd mine apart

/-- An event wins that is the first of its attempt. -/
theorem credits_new (fresh : ∀ q ∈ batch, ¬ (ofPending p).OfAttempt q) :
    Credits (batch ++ [p]) (.ofPending p) := by
  have last : p ∈ batch ++ [p] := List.mem_append_right _ (List.mem_singleton.mpr rfl)
  have absent : batch.find? (ofPending p).shows = none :=
    List.find?_eq_none.mpr fun q hq shown => fresh q hq (ofAttempt_of_shows shown)
  have here : (ofPending p).shows p = true := shows_iff.mpr ⟨rfl, rfl⟩
  refine ⟨⟨p, ?_, rfl, fun _ => rfl⟩, fun w told => ⟨p, last, ⟨rfl, rfl⟩, told⟩, fun none q hq mine => ?_⟩
  · rw [List.find?_append, absent, Option.none_or, List.find?_singleton, if_pos here]
  · rcases List.mem_append.mp hq with earlier | new
    · exact absurd mine (fresh q earlier)
    · rw [List.mem_singleton.mp new]
      exact none

/-- A higher status of the attempt takes the place of the candidate, and leaves it its worker if it
names none. -/
theorem Credits.outranked (credits : Credits batch g) (place : p.place = g.place)
    (attempt : p.retryCount = g.retryCount) (higher : ∀ q ∈ batch, ¬ (ofPending p).shows q = true) :
    Credits (batch ++ [p]) { ofPending p with workerId := p.workerId.or g.workerId } := by
  have last : p ∈ batch ++ [p] := List.mem_append_right _ (List.mem_singleton.mpr rfl)
  have absent : batch.find? (ofPending p).shows = none := List.find?_eq_none.mpr higher
  have here : (ofPending p).shows p = true := shows_iff.mpr ⟨rfl, rfl⟩
  have same {q : Pending} : (ofPending p).OfAttempt q ↔ g.OfAttempt q := by
    simp only [OfAttempt, ← place, ← attempt]
    rfl
  refine ⟨⟨p, ?_, rfl, fun some => ?_⟩, fun w told => ?_, fun none q hq mine => ?_⟩
  · change (batch ++ [p]).find? (ofPending p).shows = some p
    rw [List.find?_append, absent, Option.none_or, List.find?_singleton, if_pos here]
  · obtain ⟨w, named⟩ := Option.isSome_iff_exists.mp some
    simp [named]
  · rcases Option.or_eq_some_iff.mp told with own | ⟨-, kept⟩
    · exact ⟨p, last, ⟨rfl, rfl⟩, own⟩
    · obtain ⟨q, hq, mine, named⟩ := credits.named w kept
      exact ⟨q, List.mem_append_left _ hq, same.mpr mine, named⟩
  · obtain ⟨own, kept⟩ := Option.or_eq_none_iff.mp none
    rcases List.mem_append.mp hq with earlier | new
    · exact credits.unnamed kept q earlier (same.mp mine)
    · rw [List.mem_singleton.mp new]
      exact own

/-- An event of the attempt that is no higher gives the candidate its worker if it names none. -/
theorem Credits.helped (credits : Credits batch g) (place : p.place = g.place)
    (attempt : p.retryCount = g.retryCount) :
    Credits (batch ++ [p]) { g with workerId := g.workerId.or p.workerId } := by
  have last : p ∈ batch ++ [p] := List.mem_append_right _ (List.mem_singleton.mpr rfl)
  obtain ⟨⟨q, found, moment, worker⟩, named, unnamed⟩ := credits
  refine ⟨⟨q, ?_, moment, fun some => ?_⟩, fun w told => ?_, fun none q hq mine => ?_⟩
  · change (batch ++ [p]).find? g.shows = some q
    rw [List.find?_append, found, Option.some_or]
  · obtain ⟨w, told⟩ := Option.isSome_iff_exists.mp some
    simp [worker some, told]
  · rcases Option.or_eq_some_iff.mp told with own | ⟨-, other⟩
    · obtain ⟨q, hq, mine⟩ := named w own
      exact ⟨q, List.mem_append_left _ hq, mine⟩
    · exact ⟨p, last, ⟨place, attempt⟩, other⟩
  · obtain ⟨own, other⟩ := Option.or_eq_none_iff.mp none
    rcases List.mem_append.mp hq with earlier | new
    · exact unnamed own q earlier mine
    · rw [List.mem_singleton.mp new]
      exact other

theorem Credits.merge (credits : Credits batch g) (place : p.place = g.place)
    (highest : ∀ q ∈ batch, q.place = g.place → q.mark ≤ g.mark) :
    Credits (batch ++ [p]) (merge g (.ofPending p)) := by
  have either (o o' : Option WorkerId) : (o <|> o') = o.or o' := Option.orElse_eq_or
  unfold Folded.merge
  split
  · rename_i later
    refine credits_new fun q hq mine => ?_
    obtain ⟨same, attempt⟩ := mine
    have below : q.retryCount ≤ g.retryCount := by
      rcases Mark.le_iff.mp (highest q hq (same.trans place)) with less | ⟨equal, _⟩
      · exact Int.le_of_lt less
      · exact Int.le_of_eq equal
    exact absurd later (Int.not_lt.mpr (attempt ▸ below))
  · rename_i notLater
    split
    · rename_i earlier
      exact credits.skip fun mine => absurd mine.2 (Int.ne_of_lt earlier)
    · rename_i notEarlier
      have attempt : p.retryCount = g.retryCount :=
        Int.le_antisymm (Int.not_lt.mp notLater) (Int.not_lt.mp notEarlier)
      split
      · rename_i outranks
        have rank : g.status.rank < p.status.rank := of_decide_eq_true outranks
        rw [either]
        refine credits.outranked place attempt fun q hq shown => ?_
        obtain ⟨same, mark⟩ := shows_iff.mp shown
        have below := highest q hq (same.trans place)
        rw [mark] at below
        rcases Mark.le_iff.mp below with less | ⟨_, le⟩
        · exact absurd less (Int.not_lt.mpr (Int.le_of_eq attempt.symm))
        · exact absurd rank (Nat.not_lt.mpr le)
      · rw [either]
        exact credits.helped place attempt

theorem foldPending_credits (batch : List Pending) : ∀ f ∈ foldPending batch, Credits batch f := by
  induction batch using List.reverseRecOn with
  | nil => exact List.forall_mem_nil _
  | append_singleton batch p ih =>
    have sums := foldPending_summarizes batch
    intro f hf
    rw [foldPending, List.foldl_append] at hf
    rcases mem_insert sums.sorted hf with ⟨old, other⟩ | ⟨rfl, fresh⟩ | ⟨g, hg, same, rfl⟩
    · exact (ih f old).skip fun mine => other mine.1.symm
    · refine credits_new fun q hq mine => ?_
      obtain ⟨g, hg, equal⟩ := sums.covered q hq
      exact fresh g hg (equal.trans mine.1)
    · exact (ih g hg).merge same.symm (sums.highest g hg)

/-- A task, and what a candidate shows of it. -/
def shown (f : Folded) : (TaskId × Instant) × Mark := ((f.taskId, f.taskInsertedAt), f.mark)

theorem shown_eq_iff : f.shown = g.shown ↔ f.place = g.place ∧ f.mark = g.mark := by
  rw [place_eq_iff]
  simp only [shown, Prod.mk.injEq]

/-- The candidate tells of the latest attempt of its task, and of this the highest status. Its moment
and its worker are those of the first event that says so; if that one names no worker, the worker is
another one of the attempt, and there is none only if the attempt names none. -/
structure Wins (batch : List Pending) (f : Folded) : Prop where
  latest : ∀ p ∈ batch, p.place = f.place → p.retryCount ≤ f.retryCount
  highest : ∀ p ∈ batch, f.OfAttempt p → p.status.rank ≤ f.status.rank
  credits : Credits batch f

end Folded

theorem Summarizes.wins (sums : Summarizes batch fs) (listed : f ∈ fs) (credits : f.Credits batch) :
    f.Wins batch := by
  refine ⟨fun p hp place => ?_, fun p hp ⟨place, attempt⟩ => ?_, credits⟩
  · rcases Mark.le_iff.mp (sums.highest f listed p hp place) with less | ⟨same, _⟩
    · exact Int.le_of_lt less
    · exact Int.le_of_eq same
  · rcases Mark.le_iff.mp (sums.highest f listed p hp place) with less | ⟨_, le⟩
    · exact absurd attempt (Int.ne_of_lt less)
    · exact le

/-- Candidates of the same events, in whatever order these came, show the same. -/
theorem Summarizes.shown_subset (sums : Summarizes batch fs) (sums' : Summarizes other fs')
    (same : batch ⊆ other) (same' : other ⊆ batch) : fs.map Folded.shown ⊆ fs'.map Folded.shown := by
  intro s hs
  obtain ⟨f, listed, rfl⟩ := List.mem_map.mp hs
  obtain ⟨p, hp, place, mark⟩ := sums.listed f listed
  obtain ⟨f', listed', place'⟩ := sums'.covered p (same hp)
  obtain ⟨q, hq, placed, marked⟩ := sums'.listed f' listed'
  have equal : f'.place = f.place := place'.trans place
  have above : f'.mark ≤ f.mark := marked ▸ sums.highest f listed q (same' hq) (placed.trans equal)
  have below : f.mark ≤ f'.mark := mark ▸ sums'.highest f' listed' p (same hp) place'.symm
  exact List.mem_map.mpr ⟨f', listed', Folded.shown_eq_iff.mpr ⟨equal, le_antisymm above below⟩⟩

theorem Summarizes.perm (sums : Summarizes batch fs) (sums' : Summarizes other fs')
    (same : batch.Perm other) : fs.map Folded.shown = fs'.map Folded.shown := by
  let earlier (s s' : (TaskId × Instant) × Mark) : Prop :=
    toLex (s.1.1, s.1.2.nanos) < toLex (s'.1.1, s'.1.2.nanos)
  have : Std.Irrefl earlier := ⟨fun _ => lt_irrefl _⟩
  have sorted {batch : List Pending} {fs : List Folded} (sums : Summarizes batch fs) :
      (fs.map Folded.shown).Pairwise earlier := List.pairwise_map.mpr sums.sorted
  exact (sorted sums).eq_of_mem_iff (sorted sums') fun s =>
    ⟨fun h => sums.shown_subset sums' same.subset same.symm.subset h,
      fun h => sums'.shown_subset sums same.symm.subset same.subset h⟩

/-- Each task in the batch has one candidate, in the order of the tasks, and it is the event of the task
that wins. In whatever order the events come, the candidates show the same. -/
theorem foldPending_picks (batch : List Pending) :
    (foldPending batch).Pairwise (·.place < ·.place) ∧
    (∀ k, (∃ f ∈ foldPending batch, f.place = k) ↔ ∃ p ∈ batch, p.place = k) ∧
    (∀ f ∈ foldPending batch, f.Wins batch) ∧
    ∀ other, batch.Perm other →
      (foldPending other).map Folded.shown = (foldPending batch).map Folded.shown := by
  have sums := foldPending_summarizes batch
  refine ⟨sums.sorted, fun k => ⟨?_, ?_⟩, fun f listed => ?_, fun other same => ?_⟩
  · rintro ⟨f, listed, rfl⟩
    obtain ⟨p, hp, place, _⟩ := sums.listed f listed
    exact ⟨p, hp, place⟩
  · rintro ⟨p, hp, rfl⟩
    exact sums.covered p hp
  · exact sums.wins listed (Folded.foldPending_credits batch f listed)
  · exact ((foldPending_summarizes other).perm sums same.symm)

/-- An attempt that has started on one worker fails, and this is told twice, by another worker at last;
between them comes an event of the attempt before. Another task is told to run, once without a worker. -/
def strayed : List Pending :=
  let told (task : TaskId) (retryCount : Int) (status : Status) (moment : Int) (worker : Option Nat) :=
    { (default : Pending) with
      taskId := task, retryCount, status, timestamp := ⟨moment⟩, workerId := worker.map fun w => ⟨w⟩ }
  [told 2 0 .running 5 (some 3), told 1 1 .running 1 (some 4), told 1 1 .failed 2 none,
    told 1 0 .failed 3 (some 5), told 1 1 .failed 4 (some 6), told 2 0 .running 6 none]

/-- The failure that is told first wins, with the worker of the start. From behind another one is told
first, and only the attempt and the status are as before. -/
theorem strayed_picked : foldPending strayed =
      [⟨1, .epoch, 1, .failed, ⟨2⟩, some ⟨4⟩⟩, ⟨2, .epoch, 0, .running, ⟨5⟩, some ⟨3⟩⟩] ∧
    foldPending strayed.reverse =
      [⟨1, .epoch, 1, .failed, ⟨4⟩, some ⟨6⟩⟩, ⟨2, .epoch, 0, .running, ⟨6⟩, some ⟨3⟩⟩] ∧
    (∀ f ∈ foldPending strayed, f.Wins strayed) ∧
    (foldPending strayed.reverse).map Folded.shown = (foldPending strayed).map Folded.shown := by
  obtain ⟨-, -, wins, perm⟩ := foldPending_picks strayed
  exact ⟨by decide, by decide, wins, perm strayed.reverse (List.reverse_perm strayed).symm⟩

end WorkflowEngine
