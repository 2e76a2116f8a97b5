import Mathlib.Data.Prod.Lex
import WorkflowEngine.ReadModel.Fold

/-!
What a batch of events says about a task: the highest mark among its events, where a later attempt
counts more than a higher status. A mark replaces another only if it is of no earlier attempt and of
a higher status, which is a different order.
-/

namespace WorkflowEngine

/-- An attempt and its status, as an event tells them or a row shows them. -/
structure Mark where
  retryCount : Int
  status : Status
  deriving DecidableEq, Repr

theorem Status.rank_injective : Function.Injective rank := by
  intro a b
  cases a <;> cases b <;> simp [rank]

namespace Mark

def key (a : Mark) : Int ×ₗ Nat := toLex (a.retryCount, a.status.rank)

theorem key_injective : Function.Injective key := by
  rintro ⟨retry, status⟩ ⟨retry', status'⟩ h
  obtain ⟨attempt, rank⟩ := Prod.mk.inj (toLex.injective h)
  rw [Mark.mk.injEq]
  exact ⟨attempt, Status.rank_injective rank⟩

/-- The later attempt is higher, and of one attempt the higher status. -/
instance : LinearOrder Mark := LinearOrder.lift' key key_injective

theorem le_iff {a b : Mark} : a ≤ b ↔ a.retryCount < b.retryCount ∨
    (a.retryCount = b.retryCount ∧ a.status.rank ≤ b.status.rank) :=
  Prod.Lex.le_iff

/-- The mark may replace the other. -/
def replaces (a b : Mark) : Bool := shouldApply b.retryCount b.status a.retryCount a.status

theorem replaces_iff {a b : Mark} :
    a.replaces b = true ↔ b.retryCount ≤ a.retryCount ∧ b.status.rank < a.status.rank := by
  simp [replaces, shouldApply, Status.outranks]

end Mark

def TaskEvent.mark (e : TaskEvent) : Mark := ⟨e.retryCount, e.status⟩

def Pending.mark (p : Pending) : Mark := ⟨p.retryCount, p.status⟩

def Folded.mark (f : Folded) : Mark := ⟨f.retryCount, f.status⟩

def TaskRow.mark (r : TaskRow) : Mark := ⟨r.latestRetryCount, r.status⟩

/-- What tells tasks apart, in the order of candidates. -/
def Folded.place (f : Folded) : Int ×ₗ Int := toLex (f.taskId, f.taskInsertedAt.nanos)

def Pending.place (p : Pending) : Int ×ₗ Int := toLex (p.taskId, p.taskInsertedAt.nanos)

namespace Folded

variable {a b c f : Folded} {fs : List Folded} {p : Pending} {batch : List Pending}

theorem place_eq_iff : a.place = b.place ↔ a.taskId = b.taskId ∧ a.taskInsertedAt = b.taskInsertedAt := by
  obtain ⟨_, ⟨_⟩, _, _, _, _⟩ := a
  obtain ⟨_, ⟨_⟩, _, _, _, _⟩ := b
  simp [place]

theorem before_iff : before a b = true ↔ a.place < b.place := by
  simp only [before, Bool.or_eq_true, Bool.and_eq_true, decide_eq_true_eq, beq_iff_eq, place,
    Prod.Lex.toLex_lt_toLex]
  rfl

theorem sameTask_iff : sameTask a b = true ↔ a.place = b.place := by
  rw [place_eq_iff, sameTask, Bool.and_eq_true, beq_iff_eq, beq_iff_eq]

theorem merge_place (same : a.place = b.place) : (merge a b).place = a.place := by
  unfold merge
  split
  · exact same.symm
  · split
    · rfl
    · split
      · exact same.symm
      · rfl

theorem merge_mark : (merge a b).mark = max a.mark b.mark := by
  unfold merge
  split
  · rename_i later
    rw [max_eq_right (Mark.le_iff.mpr (Or.inl later))]
  · rename_i notLater
    split
    · rename_i earlier
      rw [max_eq_left (Mark.le_iff.mpr (Or.inl earlier))]
    · rename_i notEarlier
      have attempt : a.retryCount = b.retryCount :=
        Int.le_antisymm (Int.not_lt.mp notEarlier) (Int.not_lt.mp notLater)
      split
      · rename_i higher
        have rank : a.status.rank < b.status.rank := by simpa [Status.outranks] using higher
        rw [max_eq_right (Mark.le_iff.mpr (Or.inr ⟨attempt, Nat.le_of_lt rank⟩))]
        rfl
      · rename_i notHigher
        have rank : b.status.rank ≤ a.status.rank := by simpa [Status.outranks] using notHigher
        rw [max_eq_left (Mark.le_iff.mpr (Or.inr ⟨attempt.symm, rank⟩))]
        rfl

/-- What becomes of the candidates when one more is put among them. -/
theorem mem_insert (sorted : fs.Pairwise (·.place < ·.place)) (h : f ∈ insert c fs) :
    (f ∈ fs ∧ f.place ≠ c.place) ∨ (f = c ∧ ∀ g ∈ fs, g.place ≠ c.place) ∨
      ∃ g ∈ fs, g.place = c.place ∧ f = merge g c := by
  induction fs with
  | nil => exact Or.inr (Or.inl ⟨List.mem_singleton.mp h, by simp⟩)
  | cons g rest ih =>
    obtain ⟨least, sorted⟩ := List.pairwise_cons.mp sorted
    unfold insert at h
    split at h
    · rename_i first
      have above : ∀ g' ∈ g :: rest, c.place < g'.place := by
        intro g' hg'
        rcases List.mem_cons.mp hg' with rfl | later
        · exact before_iff.mp first
        · exact lt_trans (before_iff.mp first) (least g' later)
      rcases List.mem_cons.mp h with rfl | old
      · exact Or.inr (Or.inl ⟨rfl, fun g' hg' => (above g' hg').ne'⟩)
      · exact Or.inl ⟨old, (above f old).ne'⟩
    · split at h
      · rename_i same
        have equal := sameTask_iff.mp same
        rcases List.mem_cons.mp h with rfl | later
        · exact Or.inr (Or.inr ⟨g, List.mem_cons_self, equal.symm, rfl⟩)
        · exact Or.inl ⟨List.mem_cons_of_mem _ later, by rw [equal]; exact (least f later).ne'⟩
      · rename_i notSame
        have apart : g.place ≠ c.place := fun equal => notSame (sameTask_iff.mpr equal.symm)
        rcases List.mem_cons.mp h with rfl | later
        · exact Or.inl ⟨List.mem_cons_self, apart⟩
        · rcases ih sorted later with ⟨old, other⟩ | ⟨rfl, fresh⟩ | ⟨g', hg', same, rfl⟩
          · exact Or.inl ⟨List.mem_cons_of_mem _ old, other⟩
          · refine Or.inr (Or.inl ⟨rfl, ?_⟩)
            intro g' hg'
            rcases List.mem_cons.mp hg' with rfl | old
            · exact apart
            · exact fresh g' old
          · exact Or.inr (Or.inr ⟨g', List.mem_cons_of_mem _ hg', same, rfl⟩)

theorem insert_sorted (sorted : fs.Pairwise (·.place < ·.place)) :
    (insert c fs).Pairwise (·.place < ·.place) := by
  induction fs with
  | nil => exact List.pairwise_singleton _ _
  | cons g rest ih =>
    obtain ⟨least, tail⟩ := List.pairwise_cons.mp sorted
    unfold insert
    split
    · rename_i first
      refine List.pairwise_cons.mpr ⟨?_, sorted⟩
      intro g' hg'
      rcases List.mem_cons.mp hg' with rfl | later
      · exact before_iff.mp first
      · exact lt_trans (before_iff.mp first) (least g' later)
    · rename_i notFirst
      split
      · rename_i same
        have place := merge_place (sameTask_iff.mp same).symm
        refine List.pairwise_cons.mpr ⟨?_, tail⟩
        intro g' hg'
        rw [place]
        exact least g' hg'
      · rename_i notSame
        have after : g.place < c.place := by
          refine lt_of_le_of_ne (not_lt.mp fun less => notFirst (before_iff.mpr less)) ?_
          exact fun equal => notSame (sameTask_iff.mpr equal.symm)
        refine List.pairwise_cons.mpr ⟨?_, ih tail⟩
        intro f hf
        rcases mem_insert tail hf with ⟨old, _⟩ | ⟨rfl, _⟩ | ⟨g', hg', same, rfl⟩
        · exact least f old
        · exact after
        · rw [merge_place same]
          exact least g' hg'

/-- Every candidate that was there, and the new one, has its place among them afterwards. -/
theorem insert_covers (sorted : fs.Pairwise (·.place < ·.place)) :
    (∃ f ∈ insert c fs, f.place = c.place) ∧ ∀ g ∈ fs, ∃ f ∈ insert c fs, f.place = g.place := by
  induction fs with
  | nil => exact ⟨⟨c, List.mem_singleton.mpr rfl, rfl⟩, by simp⟩
  | cons g rest ih =>
    obtain ⟨own, others⟩ := ih (List.pairwise_cons.mp sorted).2
    unfold insert
    split
    · exact ⟨⟨c, List.mem_cons_self, rfl⟩, fun g' hg' => ⟨g', List.mem_cons_of_mem _ hg', rfl⟩⟩
    · split
      · rename_i same
        have equal := (sameTask_iff.mp same).symm
        have place := merge_place equal
        refine ⟨⟨_, List.mem_cons_self, place.trans equal⟩, ?_⟩
        intro g' hg'
        rcases List.mem_cons.mp hg' with rfl | later
        · exact ⟨_, List.mem_cons_self, place⟩
        · exact ⟨g', List.mem_cons_of_mem _ later, rfl⟩
      · obtain ⟨f, hf, equal⟩ := own
        refine ⟨⟨f, List.mem_cons_of_mem _ hf, equal⟩, ?_⟩
        intro g' hg'
        rcases List.mem_cons.mp hg' with rfl | later
        · exact ⟨g', List.mem_cons_self, rfl⟩
        · obtain ⟨f, hf, equal⟩ := others g' later
          exact ⟨f, List.mem_cons_of_mem _ hf, equal⟩

end Folded

/-- The candidates tell of each task in the batch its highest mark. -/
structure Summarizes (batch : List Pending) (fs : List Folded) : Prop where
  sorted : fs.Pairwise (·.place < ·.place)
  listed : ∀ f ∈ fs, ∃ p ∈ batch, p.place = f.place ∧ p.mark = f.mark
  highest : ∀ f ∈ fs, ∀ p ∈ batch, p.place = f.place → p.mark ≤ f.mark
  covered : ∀ p ∈ batch, ∃ f ∈ fs, f.place = p.place

theorem Summarizes.insert {batch : List Pending} {fs : List Folded} (p : Pending)
    (sums : Summarizes batch fs) :
    Summarizes (batch ++ [p]) (Folded.insert (.ofPending p) fs) := by
  obtain ⟨own, others⟩ := Folded.insert_covers (c := .ofPending p) sums.sorted
  have last : p ∈ batch ++ [p] := List.mem_append_right _ (List.mem_singleton.mpr rfl)
  refine ⟨Folded.insert_sorted sums.sorted, ?_, ?_, ?_⟩
  · intro f hf
    rcases Folded.mem_insert sums.sorted hf with ⟨old, _⟩ | ⟨rfl, _⟩ | ⟨g, hg, same, rfl⟩
    · obtain ⟨q, hq, place, mark⟩ := sums.listed f old
      exact ⟨q, List.mem_append_left _ hq, place, mark⟩
    · exact ⟨p, last, rfl, rfl⟩
    · rw [Folded.merge_place same, Folded.merge_mark]
      rcases le_total g.mark (Folded.ofPending p).mark with le | le
      · exact ⟨p, last, same.symm, (max_eq_right le).symm⟩
      · obtain ⟨q, hq, place, mark⟩ := sums.listed g hg
        exact ⟨q, List.mem_append_left _ hq, place, by rw [max_eq_left le, mark]⟩
  · intro f hf q hq place
    rcases Folded.mem_insert sums.sorted hf with ⟨old, other⟩ | ⟨rfl, fresh⟩ | ⟨g, hg, same, rfl⟩
    · rcases List.mem_append.mp hq with earlier | new
      · exact sums.highest f old q earlier place
      · rw [List.mem_singleton.mp new] at place
        exact absurd place.symm other
    · rcases List.mem_append.mp hq with earlier | new
      · obtain ⟨g, hg, equal⟩ := sums.covered q earlier
        exact absurd (equal.trans place) (fresh g hg)
      · rw [List.mem_singleton.mp new]
        rfl
    · rw [Folded.merge_place same] at place
      rw [Folded.merge_mark]
      rcases List.mem_append.mp hq with earlier | new
      · exact le_trans (sums.highest g hg q earlier place) (le_max_left _ _)
      · rw [List.mem_singleton.mp new]
        exact le_max_right _ _
  · intro q hq
    rcases List.mem_append.mp hq with earlier | new
    · obtain ⟨g, hg, equal⟩ := sums.covered q earlier
      obtain ⟨f, hf, place⟩ := others g hg
      exact ⟨f, hf, place.trans equal⟩
    · rw [List.mem_singleton.mp new]
      exact own

theorem foldPending_summarizes (batch : List Pending) : Summarizes batch (foldPending batch) := by
  have step : ∀ (rest done : List Pending) (fs : List Folded), Summarizes done fs →
      Summarizes (done ++ rest) (rest.foldl (fun acc p => Folded.insert (.ofPending p) acc) fs) := by
    intro rest
    induction rest with
    | nil =>
      intro done fs sums
      rwa [List.append_nil]
    | cons p rest ih =>
      intro done fs sums
      have next := ih (done ++ [p]) _ (sums.insert p)
      rwa [List.append_assoc] at next
  exact step batch [] [] ⟨.nil, by simp, by simp, by simp⟩

end WorkflowEngine
