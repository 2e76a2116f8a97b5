import WorkflowEngine.Proofs.Bus.Retries

/-!
A handler that always fails. A consumer that gathers messages gets one message, its handler fails at every
call, and each copy that is sent again comes back. Between the rounds the consumer waits and holds at most
the copy that came back, so that the next tick hands it over; whatever the message and its retries, all
calls for it fail.
-/

namespace WorkflowEngine

namespace Lineage

open Batch

variable {s : Lineage} {q : QueueName} {maxBatch : Nat} {m : Message} {c : Copy}

/-- What is held is handed over, the call fails, and the copy that is sent again comes back. -/
def round : List LineageStep := [.tick, .finish 0 false, .giveBack 0 true, .again 0]

/-- The message comes in, and then there is one round after the other. -/
def vainly (m : Message) : Nat → LineageStep
  | 0 => .first m
  | n + 1 => round[n % 4]?.getD .tick

/-! ### Nothing is heard of it -/

/-- No call has gone well, and nothing was refused. -/
def Unheard (s : Lineage) : Prop := s.handled = [] ∧ s.refused = []

theorem Unheard.arrive (unheard : s.Unheard) (c : Copy) : (s.arrive c).Unheard := by
  obtain ⟨made, held, same, -⟩ := s.arrive_eq c
  rw [same]
  exact unheard

theorem Unheard.step (unheard : s.Unheard) {x : LineageStep} (fails : ∀ n, x ≠ .finish n true)
    (accepted : ∀ n, x ≠ .giveBack n false) : (s.step x).Unheard := by
  cases x with
  | first m =>
    simp only [Lineage.step]
    split
    · exact Unheard.arrive (s := { s with first := s.first ++ [m] }) unheard _
    · exact unheard
  | again i =>
    simp only [Lineage.step]
    split
    · exact unheard
    · split
      · exact Unheard.arrive (s := { s with underway := s.underway.eraseIdx i }) unheard _
      · exact unheard
  | tick =>
    simp only [Lineage.step]
    split
    · obtain ⟨made, held, same, -⟩ := s.flush_eq
      rw [same]
      exact unheard
    · exact unheard
  | finish n ok =>
    cases ok with
    | true => exact absurd rfl (fails n)
    | false =>
      simp only [Lineage.step]
      split
      · exact unheard
      · simpa [Unheard, Lineage.finish, handled] using unheard
  | giveBack n ok =>
    cases ok with
    | false => exact absurd rfl (accepted n)
    | true =>
      simp only [Lineage.step, sendAgain]
      split
      · exact unheard
      · split <;> exact unheard

/-! ### Rounds -/

/-- The consumer waits, and holds one copy at most, which a tick hands over. -/
structure Resting (maxBatch : Nat) (s : Lineage) : Prop where
  maxBatch : s.consumer.maxBatch = maxBatch
  waits : s.waits = true
  underway : s.underway = []
  held : (s.held = [] ∧ s.consumer.batches = []) ∨
    ∃ c, s.held = [c] ∧ s.consumer.batches = [ofMessage c.message]

theorem Resting.arrive (waits : s.waits = true) (underway : s.underway = []) (held : s.held = [])
    (batches : s.consumer.batches = []) (room : 1 < s.consumer.maxBatch) :
    Resting s.consumer.maxBatch (s.arrive c) := by
  have gathered : s.consumer.receive c.message =
      (none, { s.consumer with batches := [ofMessage c.message] }) := by
    simp [Consumer.receive, batches, gather, fits, ofMessage, Nat.not_le.mpr room]
  rw [Lineage.arrive, gathered]
  exact ⟨rfl, waits, underway, Or.inr ⟨c, by simp [held], rfl⟩⟩

theorem foldl_round (s : Lineage) : round.foldl step s =
    (((s.step .tick).step (.finish 0 false)).step (.giveBack 0 true)).step (.again 0) := rfl

/-- A copy that is handed over and fails comes back, unless it is dropped. -/
theorem Resting.comes_back (waits : s.waits = true) (underway : s.underway = []) (held : s.held = [c])
    (batches : s.consumer.batches = [ofMessage c.message]) (room : 1 < s.consumer.maxBatch) :
    Resting s.consumer.maxBatch (round.foldl step s) := by
  obtain ⟨running, returning⟩ := waits_iff.mp waits
  let call : HandlerCall := ⟨ofMessage c.message, [c]⟩
  let failed : Lineage :=
    { s with
      consumer := { s.consumer with batches := [] }
      held := []
      calls := s.calls ++ [call]
      running := []
      finished := s.finished ++ [(call, false)]
      returning := [c] }
  have fails : (s.step .tick).step (.finish 0 false) = failed := by
    simp [step, waits, flush, Consumer.flush, batches, handOver, share, held, running, Lineage.finish,
      returning, failed, call, Copy.key, Batch.key, ofMessage]
  rw [foldl_round, fails]
  cases spent : c.message.redelivery? with
  | none =>
    have dropped : (failed.step (.giveBack 0 true)).step (.again 0) =
        { failed with returning := [], dropped := s.dropped ++ [c] } := by
      simp [step, sendAgain, spent, underway, failed]
    rw [dropped]
    exact ⟨rfl, rfl, underway, Or.inl ⟨rfl, rfl⟩⟩
  | some m =>
    let waiting : Lineage := { failed with returning := [], underway := [] }
    have again : (failed.step (.giveBack 0 true)).step (.again 0) =
        waiting.arrive { c with message := m } := by
      simp [step, sendAgain, spent, underway, failed, waiting, Lineage.waits]
    rw [again]
    exact Resting.arrive (s := waiting) rfl rfl rfl rfl room

theorem Resting.round (resting : s.Resting maxBatch) (room : 1 < maxBatch) :
    Resting maxBatch (round.foldl step s) := by
  obtain ⟨rfl, waits, underway, ⟨held, batches⟩ | ⟨c, held, batches⟩⟩ := resting
  · obtain ⟨running, returning⟩ := waits_iff.mp waits
    have same : { s.consumer with batches := [] } = s.consumer := by rw [← batches]
    have tick : s.step .tick = s := by simp [step, waits, flush, Consumer.flush, batches, same]
    have finish : s.step (.finish 0 false) = s := by simp [step, running]
    have giveBack : s.step (.giveBack 0 true) = s := by simp [step, returning]
    have again : s.step (.again 0) = s := by simp [step, underway]
    rw [foldl_round, tick, finish, giveBack, again]
    exact ⟨rfl, waits, underway, Or.inl ⟨held, batches⟩⟩
  · exact .comes_back waits underway held batches room

theorem vainly_cycle (m : Message) (j : Nat) : vainly m (4 * j + 1) = .tick ∧
    vainly m (4 * j + 2) = .finish 0 false ∧ vainly m (4 * j + 3) = .giveBack 0 true ∧
    vainly m (4 * j + 4) = .again 0 := by
  refine ⟨?_, ?_, ?_, ?_⟩ <;> simp [vainly, Lineage.round, Nat.add_mod]

theorem vainly_resting (room : 1 < maxBatch) (j : Nat) :
    Resting maxBatch (after q maxBatch (vainly m) (4 * j + 1)) := by
  induction j with
  | zero => exact Resting.arrive (s := { start q maxBatch with first := [m] }) rfl rfl rfl rfl room
  | succ j ih =>
    obtain ⟨tick, finish, giveBack, again⟩ := vainly_cycle m j
    have later := ih.round room
    rwa [foldl_round, ← tick, ← finish, ← giveBack, ← again] at later

theorem vainly_unheard (n : Nat) : (after q maxBatch (vainly m) n).Unheard := by
  induction n with
  | zero => exact ⟨rfl, rfl⟩
  | succ n ih =>
    have vain : (∀ i, vainly m n ≠ .finish i true) ∧ ∀ i, vainly m n ≠ .giveBack i false := by
      cases n with
      | zero => exact ⟨fun _ => nofun, fun _ => nofun⟩
      | succ n =>
        have turn : n % 4 = 0 ∨ n % 4 = 1 ∨ n % 4 = 2 ∨ n % 4 = 3 := by omega
        rcases turn with turn | turn | turn | turn <;> simp [vainly, Lineage.round, turn]
    exact ih.step vain.1 vain.2

/-- Whatever a message holds and however many retries it has, all calls for it can fail. -/
theorem vainly_fails (q : QueueName) (room : 1 < maxBatch) (m : Message) :
    (after q maxBatch (vainly m) 1).first[0]? = some m ∧
      Fails (after q maxBatch (vainly m)) (vainly m) 0 := by
  constructor
  · obtain ⟨made, held, same, -⟩ := arrive_eq { start q maxBatch with first := [m] } ⟨0, m⟩
    change (arrive { start q maxBatch with first := [m] } ⟨0, m⟩).first[0]? = some m
    rw [same]
    rfl
  · have resting (n : Nat) := vainly_resting (q := q) (m := m) room n
    exact {
      ticks n := ⟨4 * n + 1, by omega, (resting n).waits, (vainly_cycle m n).1⟩
      fails n := by
        rw [(vainly_unheard n).1]
        exact List.forall_mem_nil _
      accepted n := by
        rw [(vainly_unheard n).2]
        exact List.forall_mem_nil _
      returns n c _ _ := ⟨4 * n + 1, by omega, by rw [(resting n).underway]; exact List.not_mem_nil⟩ }

end Lineage

end WorkflowEngine
