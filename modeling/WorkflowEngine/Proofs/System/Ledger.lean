import WorkflowEngine.Proofs.System.Notice

/-!
What the notices tell of a store, over a whole run: nothing that is not true of its tasks, and of every
task that has ended how it ended. A task is announced before anything is told of it.
-/

namespace WorkflowEngine

open Store

variable {s s' : Store} {ns more : List Notice} {t u : Task} {r : Report}

structure Ledger (s : Store) (ns : List Notice) : Prop where
  sound : s.Sound
  counted : ∀ t ∈ s.tasks, 0 ≤ t.retryCount
  told : ∀ n ∈ ns, ∀ r ∈ n.reports, ∃ t ∈ s.tasks, r.Fits t
  ended : ∀ t ∈ s.tasks, t.state.isTerminal = true → ∃ n ∈ ns, ∃ r ∈ n.reports, r.Ends t
  known : ∀ n ∈ ns, ∀ i ∈ n.created, i ≤ s.lastTaskId
  timely : ∀ n ∈ ns, n.Timely
  order : ns.Pairwise fun a b => ∀ i ∈ b.created, ¬ a.Names i

theorem ledger_empty (internalRetries : Int) : Ledger { internalRetries } [] := by
  refine ⟨sound_empty internalRetries, ?_, ?_, ?_, ?_, ?_, .nil⟩ <;> intro x hx <;> cases hx

theorem Ledger.announced (ledger : Ledger s ns) (announced : Announced s s' more) :
    Ledger s' (ns ++ more) := by
  have told := announced.told
  refine ⟨announced.sound, ?_, ?_, ?_, ?_, ?_, ?_⟩
  · intro u hu
    rcases told.born u hu with ⟨t, ht, ages⟩ | new
    · exact Int.le_trans (ledger.counted t ht) ages.attempts
    · exact new
  · intro n hn r hr
    rcases List.mem_append.mp hn with old | new
    · obtain ⟨t, ht, fits⟩ := ledger.told n old r hr
      obtain ⟨u, hu, ages⟩ := told.kept t ht
      exact ⟨u, hu, fits.ages ages⟩
    · exact told.told r (List.mem_flatMap.mpr ⟨n, new, hr⟩)
  · intro u hu ended
    rcases told.ended u hu ended with ⟨t, ht, ages, before⟩ | ⟨r, hr, ends⟩
    · obtain ⟨n, hn, r, hr, ends⟩ := ledger.ended t ht before
      exact ⟨n, List.mem_append_left _ hn, r, hr, ends.ages before ages⟩
    · obtain ⟨n, hn, hr⟩ := List.mem_flatMap.mp hr
      exact ⟨n, List.mem_append_right _ hn, r, hr, ends⟩
  · intro n hn i hi
    rcases List.mem_append.mp hn with old | new
    · exact Int.le_trans (ledger.known n old i hi) told.last
    · exact (announced.fresh n new i hi).2
  · exact fun n hn => (List.mem_append.mp hn).elim (ledger.timely n) (announced.timely n)
  · refine List.pairwise_append.mpr ⟨ledger.order, announced.order, ?_⟩
    intro a ha b hb i hi names
    have new : s.lastTaskId < i := (announced.fresh b hb i hi).1
    refine Int.not_le.mpr new ?_
    rcases names with created | ⟨r, hr, same⟩
    · exact ledger.known a ha i created
    · obtain ⟨t, ht, fits⟩ := ledger.told a ha r hr
      rw [← same, ← fits.task]
      exact ledger.sound.latest t ht

theorem Ledger.fits (ledger : Ledger s ns) {n : Notice} (hn : n ∈ ns) (hr : r ∈ n.reports)
    (ht : t ∈ s.tasks) (named : t.id = r.taskId) : r.Fits t := by
  obtain ⟨u, hu, fits⟩ := ledger.told n hn r hr
  rwa [ledger.sound.ordered.eq_of_id ht hu (named.trans fits.task.symm)]

/-- A notice that names a task comes after the one that announces it. -/
theorem Ledger.announced_first (ledger : Ledger s ns) {j k : Nat} {a b : Notice} {i : TaskId}
    (ha : ns[j]? = some a) (hb : ns[k]? = some b) (created : i ∈ b.created) (names : a.Names i) :
    k ≤ j := by
  by_contra later
  obtain ⟨hj, rfl⟩ := List.getElem?_eq_some_iff.mp ha
  obtain ⟨hk, rfl⟩ := List.getElem?_eq_some_iff.mp hb
  exact List.pairwise_iff_getElem.mp ledger.order j k hj hk (Nat.lt_of_not_le later) i created names

end WorkflowEngine
