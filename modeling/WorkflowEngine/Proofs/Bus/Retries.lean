import Mathlib.Data.List.Flatten
import Mathlib.Data.List.InsertIdx
import WorkflowEngine.Proofs.Bus.Lineage
import WorkflowEngine.Proofs.Bus.Shutdown

/-!
How often a message is handled. While a consumer is not stopped, whatever comes in, whatever becomes of the
calls and whether or not a queue takes what is sent again: each message is handled at most once more than
it has retries, and just as often if all calls for it fail and all copies of it come back. A consumer on a
bus with traffic of all kinds does nothing else until it is stopped.
-/

namespace WorkflowEngine

namespace Lineage

open Batch

variable {s : Lineage} {bs : List Batch} {c : Copy} {m : Message} {o : Nat}

/-- The consumer of a queue that has had nothing yet. -/
def start (q : QueueName) (maxBatch : Nat) : Lineage := { consumer := { queue := q, maxBatch } }

/-- Where the consumer of a queue is after so many steps. -/
def after (q : QueueName) (maxBatch : Nat) (steps : Nat → LineageStep) : Nat → Lineage
  | 0 => start q maxBatch
  | n + 1 => (after q maxBatch steps n).step (steps n)

theorem start_filed (q : QueueName) (maxBatch : Nat) :
    Filed (start q maxBatch).consumer.batches (start q maxBatch) where
  keyed := List.nodup_nil
  gathered _ := rfl
  calls := List.forall_mem_nil _
  running := List.forall_mem_nil _
  order _ := rfl

theorem start_balanced (q : QueueName) (maxBatch : Nat) : (start q maxBatch).Balanced where
  single _ := rfl
  ahead := List.forall_mem_nil _
  behind := List.forall_mem_nil _
  past := List.forall_mem_nil _
  once := List.nodup_nil
  returning := List.forall_mem_nil _
  dropped := List.forall_mem_nil _
  refused := List.forall_mem_nil _

variable {q : QueueName} {maxBatch : Nat} {steps : Nat → LineageStep} {n : Nat}

theorem after_filed (q : QueueName) (maxBatch : Nat) (steps : Nat → LineageStep) (n : Nat) :
    Filed (after q maxBatch steps n).consumer.batches (after q maxBatch steps n) := by
  induction n with
  | zero => exact start_filed q maxBatch
  | succ n ih => exact ih.step (steps n)

theorem after_balanced (q : QueueName) (maxBatch : Nat) (steps : Nat → LineageStep) (n : Nat) :
    (after q maxBatch steps n).Balanced := by
  induction n with
  | zero => exact start_balanced q maxBatch
  | succ n ih => exact ih.step (steps n)

/-! ### What a state tells -/

/-- Each message is in one place: it waits for a call, or it had its last one. -/
theorem Balanced.origins (balanced : s.Balanced) :
    ((s.ahead ++ s.behind).map Copy.origin).Perm (List.range s.first.length) := by
  refine List.perm_iff_count.mpr fun o => ?_
  have single := balanced.single o
  rw [← Copy.tally_append] at single
  rw [List.count_range, List.count, List.countP_map]
  exact single

theorem Balanced.exists_copy (balanced : s.Balanced) (sent : o < s.first.length) :
    ∃ c ∈ s.ahead ++ s.behind, c.origin = o :=
  List.mem_map.mp (balanced.origins.mem_iff.mpr (List.mem_range.mpr sent))

theorem Balanced.timesHandled_le (balanced : s.Balanced) (sent : s.first[o]? = some m) :
    s.timesHandled o ≤ m.retries + 1 := by
  obtain ⟨c, hc, rfl⟩ := balanced.exists_copy (List.getElem?_eq_some_iff.mp sent).1
  rcases List.mem_append.mp hc with ahead | behind
  · obtain ⟨m', sent', sum⟩ := balanced.ahead c ahead
    cases sent.symm.trans sent'
    omega
  · obtain ⟨m', sent', sum⟩ := balanced.behind c behind
    cases sent.symm.trans sent'
    omega

/-- A message that was dropped has had all its calls. -/
theorem Balanced.timesHandled_dropped (balanced : s.Balanced) (hc : c ∈ s.dropped)
    (sent : s.first[c.origin]? = some m) : s.timesHandled c.origin = m.retries + 1 := by
  have behind := List.mem_append_right (s.running.flatMap (·.copies) ++ s.handled ++ s.returning)
    (List.mem_append_left s.refused hc)
  obtain ⟨m', sent', sum⟩ := balanced.behind c behind
  cases sent.symm.trans sent'
  have spent := (balanced.dropped c hc).2
  omega

/-- What came in is handed over or held, and no two of these are the same copy. -/
theorem Balanced.nodup_taken (balanced : s.Balanced) : (s.calls.flatMap (·.copies) ++ s.held).Nodup := by
  refine List.nodup_append'.mpr ⟨balanced.once, Copy.nodup_of_tally fun o => ?_, fun c old held => ?_⟩
  · have single := balanced.single_le o
    rw [Lineage.ahead, Copy.tally_append] at single
    omega
  · obtain ⟨n, counts⟩ := balanced.past c old
    cases counts.unique (balanced.ahead c (List.mem_append_right _ held))

theorem Balanced.nodup_arrived (balanced : s.Balanced) (filed : Filed bs s) : s.arrived.Nodup := by
  classical
  refine List.nodup_iff_count_le_one.mpr fun c => ?_
  have calls : (s.calls.filter (·.batch.key == c.key)).Sublist s.calls := List.filter_sublist
  have held : (s.held.filter (·.key == c.key)).Sublist s.held := List.filter_sublist
  have taken := ((calls.flatMap (·.copies)).append held).nodup balanced.nodup_taken
  rw [filed.order c.key] at taken
  calc s.arrived.count c = (s.arrived.filter (·.key == c.key)).count c :=
        (List.count_filter (p := fun c' : Copy => c'.key == c.key) (beq_self_eq_true _)).symm
    _ ≤ 1 := List.nodup_iff_count_le_one.mp taken c

/-- A call has copies that came in one after the other under their key. -/
theorem Filed.copies_infix {call : HandlerCall} (filed : Filed bs s) (made : call ∈ s.calls) :
    call.copies <:+: s.arrived.filter (·.key == call.batch.key) := by
  rw [← filed.order call.batch.key]
  have mine : call ∈ s.calls.filter (·.batch.key == call.batch.key) :=
    List.mem_filter.mpr ⟨made, beq_self_eq_true _⟩
  rw [List.flatMap_def]
  exact (List.infix_of_mem_flatten (List.mem_map_of_mem mine)).trans (List.prefix_append _ _).isInfix

/-! ### What a step does -/

def atWork (s : Lineage) : List Copy := s.running.flatMap (·.copies)

/-- Each copy stays where it is or goes on along its way: from under way to held, to work, and if that fails
back under way with a retry less, or to an end. -/
structure Goes (s s' : Lineage) : Prop where
  first : s.first <+: s'.first
  underway : ∀ c ∈ s.underway, c ∈ s'.underway ∨ c ∈ s'.held ∨ c ∈ s'.atWork
  held : ∀ c ∈ s.held, c ∈ s'.held ∨ c ∈ s'.atWork
  atWork : ∀ c ∈ s.atWork, c ∈ s'.atWork ∨ c ∈ s'.handled ∨ c ∈ s'.returning
  returning : ∀ c ∈ s.returning, c ∈ s'.returning ∨ c ∈ s'.dropped ∨ c ∈ s'.refused ∨
    ∃ c' ∈ s'.underway, c'.origin = c.origin ∧ c.message.retries = c'.message.retries + 1
  dropped : ∀ c ∈ s.dropped, c ∈ s'.dropped

theorem Goes.refl (s : Lineage) : Goes s s where
  first := List.prefix_rfl
  underway _ := Or.inl
  held _ := Or.inl
  atWork _ := Or.inl
  returning _ := Or.inl
  dropped _ := id

theorem Goes.handOver {s' : Lineage} (goes : Goes s s') (b : Batch) : Goes s (s'.handOver b) := by
  have atWork : (s'.handOver b).atWork = s'.atWork ++ s'.share b := by
    simp [Lineage.atWork, Lineage.handOver, share]
  have taken : ∀ c, c ∈ s'.held ∨ c ∈ s'.atWork → c ∈ (s'.handOver b).held ∨ c ∈ (s'.handOver b).atWork := by
    rintro c (held | working)
    · have split := List.filter_append_perm (·.key == b.key) s'.held
      refine (List.mem_append.mp (split.mem_iff.mpr held)).symm.imp_right fun mine => ?_
      exact atWork ▸ List.mem_append_right _ mine
    · exact Or.inr (atWork ▸ List.mem_append_left _ working)
  exact { goes with
    underway := fun c hc => (goes.underway c hc).imp_right (taken c)
    held := fun c hc => taken c (goes.held c hc)
    atWork := fun c hc => (goes.atWork c hc).imp_left fun working =>
      atWork ▸ List.mem_append_left _ working }

theorem Goes.handOverAll {s' : Lineage} (goes : Goes s s') (bs : List Batch) :
    Goes s (bs.foldl Lineage.handOver s') :=
  List.foldlRecOn bs _ goes fun _ goes b _ => goes.handOver b

theorem eq_or_mem_eraseIdx {α : Type} {l : List α} {i : Nat} {a a' : α} (here : l[i]? = some a)
    (known : a' ∈ l) : a' = a ∨ a' ∈ l.eraseIdx i := by
  obtain ⟨bound, rfl⟩ := List.getElem?_eq_some_iff.mp here
  exact List.mem_cons.mp ((List.getElem_cons_eraseIdx_perm bound).mem_iff.mpr known)

theorem Goes.sendAgain {n : Nat} (here : s.returning[n]? = some c) (accepted : Bool) :
    Goes s (s.sendAgain n c accepted) := by
  have others : ∀ c' ∈ s.returning, c' ∈ s.returning.eraseIdx n ∨ c' = c := fun c' hc' =>
    (eq_or_mem_eraseIdx here hc').symm
  unfold Lineage.sendAgain
  dsimp only
  split
  · exact {
      first := List.prefix_rfl
      underway _ := Or.inl
      held _ := Or.inl
      atWork _ := Or.inl
      returning c' hc' := (others c' hc').imp_right fun same =>
        Or.inl (List.mem_append_right _ (List.mem_singleton.mpr same))
      dropped _ := List.mem_append_left _ }
  rename_i m again
  have less := Message.retries_of_again again
  split
  · exact {
      first := List.prefix_rfl
      underway _ hc' := Or.inl (List.mem_append_left _ hc')
      held _ := Or.inl
      atWork _ := Or.inl
      returning c' hc' := (others c' hc').imp_right fun same => by
        subst same
        exact Or.inr (Or.inr ⟨_, List.mem_append_right _ List.mem_cons_self, rfl, less⟩)
      dropped _ := id }
  · exact {
      first := List.prefix_rfl
      underway _ := Or.inl
      held _ := Or.inl
      atWork _ := Or.inl
      returning c' hc' := (others c' hc').imp_right fun same =>
        Or.inr (Or.inl (List.mem_append_right _ (List.mem_singleton.mpr same)))
      dropped _ := id }

theorem Goes.finish {n : Nat} {call : HandlerCall} (here : s.running[n]? = some call) (ok : Bool) :
    Goes s (s.finish n call ok) where
  first := List.prefix_rfl
  underway _ := Or.inl
  held _ := Or.inl
  atWork c hc := by
    obtain ⟨call', hcall, hc⟩ := List.mem_flatMap.mp hc
    rcases eq_or_mem_eraseIdx here hcall with rfl | other
    · refine Or.inr ?_
      cases ok with
      | true => exact Or.inl (List.mem_flatMap.mpr ⟨(call', true), by simp [Lineage.finish], hc⟩)
      | false => exact Or.inr (List.mem_append_right _ hc)
    · exact Or.inl (List.mem_flatMap.mpr ⟨call', other, hc⟩)
  returning c hc := by
    cases ok with
    | true => exact Or.inl hc
    | false => exact Or.inl (List.mem_append_left _ hc)
  dropped _ := id

theorem Goes.arrive {s' : Lineage} (goes : Goes s { s' with held := s'.held ++ [c] }) :
    Goes s (s'.arrive c) := by
  refine Goes.handOverAll ?_ _
  exact { goes with }

theorem goes_step (s : Lineage) (x : LineageStep) : Goes s (s.step x) := by
  cases x with
  | first m =>
    simp only [step]
    split
    · refine Goes.arrive ?_
      exact {
        first := List.prefix_append _ _
        underway _ := Or.inl
        held _ hc := Or.inl (List.mem_append_left _ hc)
        atWork _ := Or.inl
        returning _ := Or.inl
        dropped _ := id }
    · exact .refl s
  | again i =>
    simp only [step]
    split
    · exact .refl s
    · rename_i c here
      split
      · refine Goes.arrive ?_
        exact {
          first := List.prefix_rfl
          underway c' hc' := (eq_or_mem_eraseIdx here hc').symm.imp_right fun same =>
            Or.inl (List.mem_append_right _ (List.mem_singleton.mpr same))
          held _ hc := Or.inl (List.mem_append_left _ hc)
          atWork _ := Or.inl
          returning _ := Or.inl
          dropped _ := id }
      · exact .refl s
  | tick =>
    simp only [step]
    split
    · refine Goes.handOverAll ?_ _
      exact { Goes.refl s with }
    · exact .refl s
  | finish n ok =>
    simp only [step]
    split
    · exact .refl s
    · rename_i here
      exact .finish here ok
  | giveBack n accepted =>
    simp only [step]
    split
    · exact .refl s
    · rename_i here
      exact .sendAgain here accepted

/-- A message is given up when it has no retry left, or when it cannot be sent again. -/
theorem lost_step {x : LineageStep} (gone : c ∈ (s.step x).lost) : c ∈ s.lost ∨
    c ∈ s.returning ∧ ∃ n accepted, x = .giveBack n accepted ∧
      (c.message.retries = 0 ∨ accepted = false) := by
  have arrive (s' : Lineage) (c' : Copy) : (s'.arrive c').lost = s'.lost := by
    obtain ⟨made, held, same, -⟩ := s'.arrive_eq c'
    rw [same]
    rfl
  cases x with
  | first m =>
    simp only [step] at gone
    split at gone
    · rw [arrive] at gone
      exact Or.inl gone
    · exact Or.inl gone
  | again i =>
    simp only [step] at gone
    split at gone
    · exact Or.inl gone
    · split at gone
      · rw [arrive] at gone
        exact Or.inl gone
      · exact Or.inl gone
  | tick =>
    simp only [step] at gone
    split at gone
    · obtain ⟨made, held, same, -⟩ := s.flush_eq
      rw [same] at gone
      exact Or.inl gone
    · exact Or.inl gone
  | finish n ok =>
    simp only [step] at gone
    split at gone <;> exact Or.inl gone
  | giveBack n accepted =>
    simp only [step] at gone
    split at gone
    · exact Or.inl gone
    rename_i c' here
    have mine := List.mem_of_getElem? here
    simp only [sendAgain] at gone
    split at gone
    · rename_i spent
      rcases List.mem_cons.mp ((lost_dropped _ c').mem_iff.mp gone) with rfl | old
      · exact Or.inr ⟨mine, n, accepted, rfl, Or.inl (Message.retries_of_dropped spent)⟩
      · exact Or.inl old
    · split at gone
      · exact Or.inl gone
      · rename_i refused
        rcases List.mem_cons.mp ((lost_refused _ c').mem_iff.mp gone) with rfl | old
        · exact Or.inr ⟨mine, n, accepted, rfl, Or.inr (Bool.not_eq_true _ ▸ refused)⟩
        · exact Or.inl old

/-! ### The end -/

/-- What waits for an event that is sure to come has got on by then. -/
theorem gets_on {run : Nat → Lineage} (here there : Lineage → Prop)
    (step : ∀ n, here (run n) → here (run (n + 1)) ∨ there (run (n + 1))) {n : Nat} (now : here (run n))
    (ends : ∃ n' ≥ n, ¬here (run n')) : ∃ n' ≥ n, there (run n') := by
  obtain ⟨n', later, gone⟩ := ends
  obtain ⟨k, rfl⟩ := Nat.exists_eq_add_of_le later
  induction k generalizing n with
  | zero => exact absurd now gone
  | succ k ih =>
    rcases step n now with still | done
    · obtain ⟨n', later', done⟩ := ih still (Nat.le_add_right _ _) (by rwa [Nat.add_right_comm])
      exact ⟨n', Nat.le_of_succ_le later', done⟩
    · exact ⟨n + 1, Nat.le_succ n, done⟩

/-- The consumer goes on with its ticks, no call for the message goes well, and all copies of it are sent
again and come back. -/
structure Fails (run : Nat → Lineage) (steps : Nat → LineageStep) (o : Nat) : Prop where
  ticks : ∀ n, ∃ n' ≥ n, (run n').waits = true ∧ steps n' = .tick
  fails : ∀ n, ∀ c ∈ (run n).handled, c.origin ≠ o
  accepted : ∀ n, ∀ c ∈ (run n).refused, c.origin ≠ o
  returns : ∀ n, ∀ c ∈ (run n).underway, c.origin = o → ∃ n' ≥ n, c ∉ (run n').underway

theorem waits_iff : s.waits = true ↔ s.running = [] ∧ s.returning = [] := by
  rw [waits, Bool.and_eq_true, List.isEmpty_iff, List.isEmpty_iff]

/-- A copy of the message is on its way to the handler, or to be sent again. -/
def OnItsWay (s : Lineage) (c : Copy) : Prop :=
  c ∈ s.underway ∨ c ∈ s.held ∨ c ∈ s.atWork ∨ c ∈ s.returning

/-- At a tick all that is held is handed over. -/
theorem held_tick (filed : Filed s.consumer.batches s) (waits : s.waits = true) :
    (s.step .tick).held = [] := by
  simp only [step, waits, if_true]
  have all : Filed s.consumer.batches { s with consumer := s.consumer.flush.2 } := { filed with }
  exact all.handOverAll.held_nil

namespace Fails

variable (fails : Fails (after q maxBatch steps) steps c.origin)

include fails

/-- The handler gets every copy, and gets it in vain. -/
theorem fails_in_time (going : (after q maxBatch steps n).OnItsWay c) :
    ∃ n' ≥ n, c ∈ (after q maxBatch steps n').returning := by
  have goes (n : Nat) : Goes (after q maxBatch steps n) (after q maxBatch steps (n + 1)) :=
    goes_step _ (steps n)
  have working : ∀ n, c ∈ (after q maxBatch steps n).atWork →
      ∃ n' ≥ n, c ∈ (after q maxBatch steps n').returning := by
    refine fun n now => gets_on (c ∈ ·.atWork) (c ∈ ·.returning) (fun n here => ?_) now ?_
    · refine ((goes n).atWork c here).imp_right fun done => done.resolve_left fun well => ?_
      exact fails.fails (n + 1) c well rfl
    · obtain ⟨n', later, waits, -⟩ := fails.ticks n
      refine ⟨n', later, fun still => ?_⟩
      rw [atWork, (waits_iff.mp waits).1] at still
      cases still
  have held : ∀ n, c ∈ (after q maxBatch steps n).held →
      ∃ n' ≥ n, c ∈ (after q maxBatch steps n').returning := by
    intro n now
    obtain ⟨n₁, later, works⟩ : ∃ n' ≥ n, c ∈ (after q maxBatch steps n').atWork := by
      refine gets_on (c ∈ ·.held) (c ∈ ·.atWork) (fun n here => (goes n).held c here) now ?_
      obtain ⟨n', later, waits, tick⟩ := fails.ticks n
      refine ⟨n' + 1, Nat.le_succ_of_le later, fun still => ?_⟩
      rw [after, tick, held_tick (after_filed q maxBatch steps n') waits] at still
      cases still
    obtain ⟨n₂, later', returning⟩ := working n₁ works
    exact ⟨n₂, Nat.le_trans later later', returning⟩
  rcases going with away | here | works | returning
  · obtain ⟨n₁, later, back⟩ : ∃ n' ≥ n, c ∈ (after q maxBatch steps n').held ∨
        c ∈ (after q maxBatch steps n').atWork :=
      gets_on (c ∈ ·.underway) (fun s => c ∈ s.held ∨ c ∈ s.atWork)
        (fun n here => (goes n).underway c here) away (fails.returns n c away rfl)
    obtain ⟨n₂, later', returning⟩ := back.elim (held n₁) (working n₁)
    exact ⟨n₂, Nat.le_trans later later', returning⟩
  · exact held n here
  · exact working n works
  · exact ⟨n, Nat.le_refl n, returning⟩

/-- What failed is dropped, or is under way again with a retry less. -/
theorem given_back (failed : c ∈ (after q maxBatch steps n).returning) :
    ∃ n' ≥ n, c ∈ (after q maxBatch steps n').dropped ∨ ∃ c' ∈ (after q maxBatch steps n').underway,
      c'.origin = c.origin ∧ c.message.retries = c'.message.retries + 1 := by
  refine gets_on (c ∈ ·.returning) (fun s => c ∈ s.dropped ∨ ∃ c' ∈ s.underway,
    c'.origin = c.origin ∧ c.message.retries = c'.message.retries + 1) (fun n here => ?_) failed ?_
  · have goes := goes_step (after q maxBatch steps n) (steps n)
    refine (goes.returning c here).imp_right fun gone => gone.imp_right fun sent => ?_
    exact sent.resolve_left fun refused => fails.accepted (n + 1) c refused rfl
  · obtain ⟨n', later, waits, -⟩ := fails.ticks n
    refine ⟨n', later, fun still => ?_⟩
    rw [(waits_iff.mp waits).2] at still
    cases still

/-- A message whose calls all fail is dropped in the end. -/
theorem dropped (going : (after q maxBatch steps n).OnItsWay c) :
    ∃ n' ≥ n, ∃ c' ∈ (after q maxBatch steps n').dropped, c'.origin = c.origin := by
  -- each round takes one of the retries that are left
  induction left : c.message.retries generalizing c n with
  | zero =>
    obtain ⟨n₁, later, returning⟩ := fails.fails_in_time going
    obtain ⟨n₂, later', dropped | ⟨c', -, -, less⟩⟩ := fails.given_back returning
    · exact ⟨n₂, Nat.le_trans later later', c, dropped, rfl⟩
    · omega
  | succ k ih =>
    obtain ⟨n₁, later, returning⟩ := fails.fails_in_time going
    obtain ⟨n₂, later', dropped | ⟨c', away, same, less⟩⟩ := fails.given_back returning
    · exact ⟨n₂, Nat.le_trans later later', c, dropped, rfl⟩
    · obtain ⟨n₃, later'', c'', dropped, same'⟩ := ih (same ▸ fails) (Or.inl away) (by omega)
      exact ⟨n₃, Nat.le_trans (Nat.le_trans later later') later'', c'', dropped, same'.trans same⟩

end Fails

theorem first_mono {n n' : Nat} (later : n ≤ n') :
    (after q maxBatch steps n).first <+: (after q maxBatch steps n').first := by
  induction later with
  | refl => exact List.prefix_rfl
  | step _ ih => exact ih.trans (goes_step _ _).first

theorem dropped_mono {n n' : Nat} (later : n ≤ n') (hc : c ∈ (after q maxBatch steps n).dropped) :
    c ∈ (after q maxBatch steps n').dropped := by
  induction later with
  | refl => exact hc
  | step _ ih => exact (goes_step _ _).dropped c ih

/-- A message whose calls all fail has as many of them as it has retries, and one more. -/
theorem Fails.timesHandled (fails : Fails (after q maxBatch steps) steps o)
    (sent : (after q maxBatch steps n).first[o]? = some m) : ∃ n₀, ∀ n' ≥ n₀,
      (after q maxBatch steps n').timesHandled o = m.retries + 1 ∧
      ∃ c ∈ (after q maxBatch steps n').dropped, c.origin = o := by
  obtain ⟨n₁, later, c, dropped, rfl⟩ : ∃ n' ≥ n, ∃ c ∈ (after q maxBatch steps n').dropped,
      c.origin = o := by
    obtain ⟨c, hc, rfl⟩ := (after_balanced q maxBatch steps n).exists_copy
      (List.getElem?_eq_some_iff.mp sent).1
    simp only [ahead, behind, lost, List.mem_append] at hc
    rcases hc with (away | held) | (((working | well) | failed) | (dropped | refused))
    · exact fails.dropped (Or.inl away)
    · exact fails.dropped (Or.inr (Or.inl held))
    · exact fails.dropped (Or.inr (Or.inr (Or.inl working)))
    · exact absurd rfl (fails.fails n c well)
    · exact fails.dropped (Or.inr (Or.inr (Or.inr failed)))
    · exact ⟨n, Nat.le_refl n, c, dropped, rfl⟩
    · exact absurd rfl (fails.accepted n c refused)
  refine ⟨n₁, fun n' later' => ?_⟩
  have dropped' := dropped_mono later' dropped
  have firsts : (after q maxBatch steps n).first <+: (after q maxBatch steps n').first :=
    first_mono (Nat.le_trans later later')
  obtain ⟨others, grown⟩ := firsts
  have sent' : (after q maxBatch steps n').first[c.origin]? = some m := by
    rw [← grown, List.getElem?_append_left (List.getElem?_eq_some_iff.mp sent).1, sent]
  exact ⟨(after_balanced q maxBatch steps n').timesHandled_dropped dropped' sent', c, dropped', rfl⟩

/-- What the handler was given so far. -/
structure Delivers (s : Lineage) : Prop where
  /-- A call has the payloads of messages of one tenant and one kind. -/
  calls : ∀ call ∈ s.calls, call.batch.payloads = call.copies.flatMap (·.message.payloads) ∧
    ∀ c ∈ call.copies, c.message.tenantId = call.batch.tenantId ∧ c.message.kindName = call.batch.kindName
  /-- It has them in the order in which they came in. -/
  order : ∀ call ∈ s.calls, call.copies <:+: s.arrived.filter (·.key == call.batch.key)
  /-- What came in under a key was given to the handler, or is still held. -/
  taken : ∀ k, (s.calls.filter (·.batch.key == k)).flatMap (·.copies) ++ s.held.filter (·.key == k) =
    s.arrived.filter (·.key == k)
  gathered : ∀ k, under k s.consumer.batches = (s.held.filter (·.key == k)).map (·.message)
  /-- Nothing that came in is in two calls. -/
  once : s.arrived.Nodup ∧ (s.calls.flatMap (·.copies)).Nodup
  /-- There is one copy of each message, which waits for a call or had its last one. -/
  places : ((s.ahead ++ s.behind).map Copy.origin).Perm (List.range s.first.length)
  bounded : ∀ o m, s.first[o]? = some m → s.timesHandled o ≤ m.retries + 1

theorem after_delivers (q : QueueName) (maxBatch : Nat) (steps : Nat → LineageStep) (n : Nat) :
    (after q maxBatch steps n).Delivers := by
  have filed := after_filed q maxBatch steps n
  have balanced := after_balanced q maxBatch steps n
  exact {
    calls call made := by
      obtain ⟨messages, keys⟩ := filed.calls call made
      refine ⟨?_, fun c hc => Prod.mk.inj (keys c hc)⟩
      rw [Batch.payloads, messages, List.flatMap_map]
    order _ := filed.copies_infix
    taken := filed.order
    gathered := filed.gathered
    once := ⟨balanced.nodup_arrived filed, balanced.once⟩
    places := balanced.origins
    bounded _ _ := balanced.timesHandled_le }

/-- All that is held goes to the handler. -/
structure HandsOver (s s' : Lineage) : Prop where
  held : s'.held = []
  batches : s'.consumer.batches = []
  calls : ∃ made, s'.calls = s.calls ++ made ∧ (made.flatMap (·.copies)).Perm s.held

theorem tick_handsOver (filed : Filed s.consumer.batches s) (waits : s.waits = true) :
    HandsOver s (s.step .tick) := by
  have empty := held_tick filed waits
  simp only [step, waits, if_true] at empty ⊢
  obtain ⟨made, held, same, -, perm⟩ := s.flush_eq
  rw [same] at empty ⊢
  change held = [] at empty
  rw [empty, List.append_nil] at perm
  exact ⟨empty, rfl, made, rfl, perm.symm⟩

/-- Whatever comes in, whatever becomes of the calls and of what is sent again: each call has the payloads of
messages of one tenant and kind in the order of arrival, and no message that came in is in two calls; at a
tick all that is held is handed over; a message is handled once more than it has retries, at most, and just as
often if all calls for it fail and all its copies come back; and it is given up only when a call for it failed
and it has no retry left, or when it could not be sent again. -/
theorem deliveries_bounded (q : QueueName) (maxBatch : Nat) (steps : Nat → LineageStep) :
    (∀ n, (after q maxBatch steps n).Delivers) ∧
    (∀ n, steps n = .tick → (after q maxBatch steps n).waits = true →
      HandsOver (after q maxBatch steps n) (after q maxBatch steps (n + 1))) ∧
    (∀ n, ∀ c ∈ (after q maxBatch steps (n + 1)).lost, c ∈ (after q maxBatch steps n).lost ∨
      c ∈ (after q maxBatch steps n).failed ∧
        (c.message.retries = 0 ∨ ∃ i, steps n = .giveBack i false)) ∧
    (∀ o n m, (after q maxBatch steps n).first[o]? = some m → Fails (after q maxBatch steps) steps o →
      ∃ n₀, ∀ n' ≥ n₀, (after q maxBatch steps n').timesHandled o = m.retries + 1 ∧
        ∃ c ∈ (after q maxBatch steps n').dropped, c.origin = o) := by
  refine ⟨after_delivers q maxBatch steps, fun n tick waits => ?_, fun n c gone => ?_,
    fun o n m sent fails => fails.timesHandled sent⟩
  · rw [after, tick]
    exact tick_handsOver (after_filed q maxBatch steps n) waits
  · rcases lost_step gone with old | ⟨returning, i, accepted, giveBack, spent | refused⟩
    · exact Or.inl old
    · exact Or.inr ⟨(after_balanced q maxBatch steps n).returning c returning, Or.inl spent⟩
    · exact Or.inr ⟨(after_balanced q maxBatch steps n).returning c returning,
        Or.inr ⟨i, refused ▸ giveBack⟩⟩

/-- The report of a task that has come to an end, with one retry. -/
def report : Message where
  kindName := MessageKind.taskCompleted.name
  payloads := []
  tenantId := ⟨1⟩
  expires := false
  persistent := false
  retries := 1

/-- Both calls for a report fail, and then there are only ticks. -/
def inVain (n : Nat) : LineageStep :=
  [.first report, .tick, .finish 0 false, .giveBack 0 true, .again 0, .tick, .finish 0 false,
    .giveBack 0 true][n]?.getD .tick

theorem inVain_settled (k : Nat) : after .tasks 10 inVain (k + 8) = after .tasks 10 inVain 8 := by
  induction k with
  | zero => rfl
  | succ k ih =>
    rw [Nat.add_right_comm]
    exact congrArg (·.step .tick) ih

theorem inVain_fails : Fails (after .tasks 10 inVain) inVain 0 := by
  have quiet (n : Nat) :
      (after .tasks 10 inVain n).handled = [] ∧ (after .tasks 10 inVain n).refused = [] := by
    rcases Nat.lt_or_ge n 8 with early | late
    · have none : ∀ n < 8, (after .tasks 10 inVain n).handled.isEmpty = true ∧
          (after .tasks 10 inVain n).refused.isEmpty = true := by decide
      exact (none n early).imp List.isEmpty_iff.mp List.isEmpty_iff.mp
    · rw [← Nat.sub_add_cancel late, inVain_settled]
      exact ⟨rfl, rfl⟩
  exact {
    ticks n := ⟨n + 8, Nat.le_add_right n 8, by rw [inVain_settled]; rfl, rfl⟩
    fails n := by
      rw [(quiet n).1]
      exact List.forall_mem_nil _
    accepted n := by
      rw [(quiet n).2]
      exact List.forall_mem_nil _
    returns n _ _ _ := ⟨n + 8, Nat.le_add_right n 8, by rw [inVain_settled]; exact List.not_mem_nil⟩ }

/-- The report is handled twice, and nobody has it any more. -/
theorem report_in_vain : (after .tasks 10 inVain 1).first[0]? = some report ∧
    Fails (after .tasks 10 inVain) inVain 0 ∧
    ∃ n₀, ∀ n' ≥ n₀, (after .tasks 10 inVain n').timesHandled 0 = 2 ∧
      ∃ c ∈ (after .tasks 10 inVain n').dropped, c.origin = 0 :=
  ⟨rfl, inVain_fails, (deliveries_bounded .tasks 10 inVain).2.2.2 0 1 report rfl inVain_fails⟩

/-! ### A consumer on a bus -/

/-- The consumer at work has the same in hand, and was not stopped. -/
structure Follows (s : Lineage) (t : Consuming) : Prop where
  filed : Filed s.consumer.batches s
  consumer : s.consumer = t.consumer
  calls : s.running.map (·.batch) = t.calls
  returning : s.returning.map (·.message) = t.returning
  cancelled : t.cancelled = false
  phase : t.phase = .busy ∨ t.phase = .waiting ∧ t.calls = [] ∧ t.returning = []

namespace Follows

variable {t : Consuming}

theorem idle (follows : s.Follows t) (phase : t.phase = .waiting) : t.calls = [] ∧ t.returning = [] :=
  (follows.phase.resolve_left (phase ▸ nofun)).2

theorem busy (follows : s.Follows t) (working : t.calls ≠ [] ∨ t.returning ≠ []) : t.phase = .busy :=
  follows.phase.resolve_right fun ⟨_, calls, returning⟩ => working.elim (· calls) (· returning)

theorem waits (follows : s.Follows t) (phase : t.phase = .waiting) : s.waits = true := by
  obtain ⟨calls, returning⟩ := follows.idle phase
  exact waits_iff.mpr ⟨List.map_eq_nil_iff.mp (follows.calls.trans calls),
    List.map_eq_nil_iff.mp (follows.returning.trans returning)⟩

/-- What comes in may be a message that was sent first, or a copy that comes back. -/
theorem arrive {s' : Lineage} (follows : s.Follows t) (phase : t.phase = .waiting)
    (next : (t.traffic.bus.receive t.me).1 = some c.message) (filed : Filed s'.consumer.batches s')
    (consumer : s'.consumer = s.consumer) (running : s'.running = s.running)
    (returning : s'.returning = s.returning) : (s'.arrive c).Follows (t.step .receive) := by
  have filed' := filed.arrive c
  obtain ⟨made, held, same, batches, -⟩ := s'.arrive_eq c
  rw [consumer, follows.consumer] at same batches
  have idle := follows.idle phase
  have taken : (s'.running ++ made).map (·.batch) = t.calls ++ (t.consumer.receive c.message).1.toList := by
    rw [List.map_append, running, follows.calls, batches]
  simp only [Consuming.step, phase, if_true, next, Consuming.take]
  rw [same] at filed' ⊢
  refine ⟨filed', rfl, taken, returning ▸ follows.returning, follows.cancelled, ?_⟩
  cases full : (t.consumer.receive c.message).1 with
  | some b => exact Or.inl rfl
  | none => exact Or.inr ⟨rfl, (List.append_nil _).trans idle.1, idle.2⟩

theorem first (follows : s.Follows t) (phase : t.phase = .waiting)
    (next : (t.traffic.bus.receive t.me).1 = some m) : (s.step (.first m)).Follows (t.step .receive) := by
  simp only [Lineage.step, follows.waits phase, if_true]
  have filed : Filed s.consumer.batches { s with first := s.first ++ [m] } := { follows.filed with }
  exact follows.arrive phase next filed rfl rfl rfl

theorem again {i : Nat} (follows : s.Follows t) (phase : t.phase = .waiting)
    (here : s.underway[i]? = some c) (next : (t.traffic.bus.receive t.me).1 = some c.message) :
    (s.step (.again i)).Follows (t.step .receive) := by
  simp only [Lineage.step, here, follows.waits phase, if_true]
  have filed : Filed s.consumer.batches { s with underway := s.underway.eraseIdx i } :=
    { follows.filed with }
  exact follows.arrive phase next filed rfl rfl rfl

theorem tick (follows : s.Follows t) (phase : t.phase = .waiting) :
    (s.step .tick).Follows (t.step .tick) := by
  have filed := follows.filed.step .tick
  simp only [Lineage.step, follows.waits phase, if_true] at filed ⊢
  obtain ⟨made, held, same, batches, -⟩ := s.flush_eq
  rw [follows.consumer] at same batches
  simp only [Consuming.step, phase, if_true]
  rw [same] at filed ⊢
  exact ⟨filed, rfl, by simp [Consuming.flush, follows.calls, batches], follows.returning,
    follows.cancelled, Or.inl rfl⟩

theorem finish (follows : s.Follows t) (n : Nat) (ok : Bool) :
    (s.step (.finish n ok)).Follows (t.step (.finish n ok)) := by
  have filed := follows.filed.step (.finish n ok)
  have calls : t.calls[n]? = s.running[n]?.map (·.batch) := by rw [← follows.calls, List.getElem?_map]
  simp only [Lineage.step, Consuming.step, calls] at filed ⊢
  cases here : s.running[n]? with
  | none => exact follows
  | some call =>
    rw [here] at filed
    have messages := (follows.filed.calls call (follows.filed.running call (List.mem_of_getElem? here))).1
    have rest : (s.running.eraseIdx n).map (·.batch) = t.calls.eraseIdx n := by
      rw [← follows.calls, List.eraseIdx_map]
    have busy := follows.busy (Or.inl fun none => by simp [none, here] at calls)
    cases ok with
    | true => exact ⟨filed, follows.consumer, rest, follows.returning, follows.cancelled, Or.inl busy⟩
    | false =>
      refine ⟨filed, follows.consumer, rest, ?_, follows.cancelled, Or.inl busy⟩
      simp [Lineage.finish, Consuming.finish, follows.returning, messages]

theorem giveBack (follows : s.Follows t) (n : Nat) :
    (s.step (.giveBack n (!t.traffic.bus.isBlocked t.consumer.queue.text))).Follows
      (t.step (.giveBack n)) := by
  have returning : t.returning[n]? = s.returning[n]?.map (·.message) := by
    rw [← follows.returning, List.getElem?_map]
  simp only [Lineage.step, Consuming.step, returning]
  cases here : s.returning[n]? with
  | none => exact follows
  | some c =>
    have rest : (s.returning.eraseIdx n).map (·.message) = t.returning.eraseIdx n := by
      rw [← follows.returning, List.eraseIdx_map]
    have busy := follows.busy (Or.inr fun none => by simp [none, here] at returning)
    simp only [Lineage.sendAgain, Consuming.sendAgain, Option.map_some]
    cases c.message.redelivery? with
    | none => exact { follows with filed := { follows.filed with }, returning := rest, phase := Or.inl busy }
    | some m =>
      dsimp only
      cases t.traffic.bus.isBlocked t.consumer.queue.text
      all_goals
        exact { follows with filed := { follows.filed with }, returning := rest, phase := Or.inl busy }

theorem step (follows : s.Follows t) {x : ConsumingStep} (on : x ≠ .cancel) :
    ∃ ys : List LineageStep, (ys.foldl Lineage.step s).Follows (t.step x) := by
  cases x with
  | others a =>
    refine ⟨[], ?_⟩
    simp only [Consuming.step]
    split
    · exact follows
    · exact { follows with }
  | receive =>
    by_cases phase : t.phase = .waiting
    · cases next : (t.traffic.bus.receive t.me).1 with
      | none =>
        refine ⟨[], ?_⟩
        simp only [Consuming.step, phase, if_true, next]
        exact { follows with phase := Or.inr ⟨rfl, follows.idle phase⟩ }
      | some m => exact ⟨[.first m], follows.first phase next⟩
    · refine ⟨[], ?_⟩
      rwa [Consuming.step, if_neg phase]
  | tick =>
    by_cases phase : t.phase = .waiting
    · exact ⟨[.tick], follows.tick phase⟩
    · refine ⟨[], ?_⟩
      rwa [Consuming.step, if_neg phase]
  | cancel => exact absurd rfl on
  | stop =>
    refine ⟨[], ?_⟩
    simpa [Consuming.step, follows.cancelled] using follows
  | finish n ok => exact ⟨[.finish n ok], follows.finish n ok⟩
  | giveBack n => exact ⟨[.giveBack n _], follows.giveBack n⟩
  | proceed =>
    refine ⟨[], ?_⟩
    simp only [Consuming.step]
    split
    · rename_i done
      rw [Bool.and_eq_true, List.isEmpty_iff, List.isEmpty_iff] at done
      rcases follows.phase with busy | ⟨waiting, -⟩
      · rw [busy]
        exact { follows with phase := Or.inr ⟨rfl, done⟩ }
      · rwa [waiting]
    · exact follows

end Follows

/-- Until it is stopped, a consumer on a bus does what is done here, whatever happens on the bus. -/
theorem follows_run (before : List TrafficStep) (q : QueueName) (maxBatch : Nat)
    (steps : List ConsumingStep) (on : ∀ x ∈ steps, x ≠ .cancel) : ∃ ys : List LineageStep,
      (ys.foldl step (start q maxBatch)).Follows ((Consuming.start before q maxBatch).run steps) := by
  have begins : (start q maxBatch).Follows (Consuming.start before q maxBatch) :=
    ⟨start_filed q maxBatch, rfl, rfl, rfl, rfl, Or.inr ⟨rfl, rfl, rfl⟩⟩
  generalize start q maxBatch = s at begins ⊢
  generalize Consuming.start before q maxBatch = t at begins ⊢
  induction steps generalizing s t with
  | nil => exact ⟨[], begins⟩
  | cons x rest ih =>
    obtain ⟨on, others⟩ := List.forall_mem_cons.mp on
    obtain ⟨ys, follows⟩ := begins.step on
    obtain ⟨zs, ends⟩ := ih others _ _ follows
    exact ⟨ys ++ zs, List.foldl_append ▸ ends⟩

end Lineage

end WorkflowEngine
