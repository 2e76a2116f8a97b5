import Mathlib.Data.List.Count
import Mathlib.Data.List.Permutation
import WorkflowEngine.Proofs.Admission

/-!
Keys in turn. A turn goes to the key that holds the least, and of its candidates to the oldest. After
each turn no key has got ahead of one that still waits by more than one place; what all turns together
come to is read off that.
-/

namespace WorkflowEngine.Admission

variable {c w : Candidate} {cs picks rest waiting : List Candidate} {held : List String} {key : String}

/-! ### One turn -/

/-- The first candidate has its turn before the second, or no later. -/
def Precedes (held : List String) (c w : Candidate) : Prop :=
  level c.key held < level w.key held ∨ (level c.key held = level w.key held ∧ c.sortId ≤ w.sortId)

theorem Precedes.refl : Precedes held c c := Or.inr ⟨rfl, Int.le_refl _⟩

theorem Precedes.trans {v : Candidate} (first : Precedes held c w) (second : Precedes held w v) :
    Precedes held c v := by
  unfold Precedes at *
  omega

theorem Precedes.level_le (before : Precedes held c w) : level c.key held ≤ level w.key held := by
  unfold Precedes at before
  omega

theorem Precedes.older (before : Precedes held c w) (same : w.key = c.key) : c.sortId ≤ w.sortId := by
  unfold Precedes at before
  rw [same] at before
  omega

theorem turn?_eq_none (h : turn? held cs = none) : cs = [] := by
  cases cs with
  | nil => rfl
  | cons first rest =>
    simp only [turn?] at h
    split at h
    · cases h
    · split at h <;> cases h

theorem turn?_precedes (h : turn? held cs = some c) : ∀ w ∈ cs, Precedes held c w := by
  induction cs generalizing c with
  | nil => cases h
  | cons first rest ih =>
    simp only [turn?] at h
    cases found : turn? held rest with
    | none =>
      rw [found] at h
      cases h
      rw [turn?_eq_none found]
      exact List.forall_mem_singleton.mpr Precedes.refl
    | some best =>
      simp only [found] at h
      refine List.forall_mem_cons.mpr ?_
      split at h
      · cases h
        have ahead : Precedes held c first := by
          unfold Precedes
          omega
        exact ⟨ahead, ih found⟩
      · cases h
        have ahead : Precedes held first best := by
          unfold Precedes
          omega
        exact ⟨Precedes.refl, fun w hw => ahead.trans (ih found w hw)⟩

/-! ### All turns -/

/-- What the candidates of a key hold once those picked are let in. -/
def reached (held : List String) (picks : List Candidate) (key : String) : Nat :=
  level key held + level key (picks.map (·.key))

theorem reached_cons : reached held (c :: picks) key = reached (c.key :: held) picks key := by
  simp only [reached, level, List.map_cons, List.count_cons]
  omega

/-- Those picked got no further ahead of those left than by one place, and are the oldest of their
keys. -/
structure Fair (held : List String) (picks rest : List Candidate) : Prop where
  even : ∀ c ∈ picks, ∀ w ∈ rest, reached held picks c.key ≤ reached held picks w.key + 1
  oldest : ∀ c ∈ picks, ∀ w ∈ rest, w.key = c.key → c.sortId ≤ w.sortId

/-- A turn in front of others. -/
theorem Fair.turn (fair : Fair (c.key :: held) picks rest) (first : ∀ w ∈ rest, Precedes held c w) :
    Fair held (c :: picks) rest := by
  refine ⟨?_, List.forall_mem_cons.mpr ⟨fun w hw => (first w hw).older, fair.oldest⟩⟩
  intro c' hc' w hw
  rw [reached_cons, reached_cons]
  by_cases again : ∃ later ∈ picks, later.key = c'.key
  · obtain ⟨later, hl, same⟩ := again
    exact same ▸ fair.even later hl w hw
  · -- the key had no turn after this one, and before it nobody held less
    obtain rfl | hc' := List.mem_cons.mp hc'
    · have last : level c'.key (picks.map (·.key)) = 0 := by
        refine List.count_eq_zero.mpr fun listed => ?_
        obtain ⟨later, hl, same⟩ := List.mem_map.mp listed
        exact again ⟨later, hl, same⟩
      have least := (first w hw).level_le
      have grown : level w.key held ≤ level w.key (c'.key :: held) := List.count_le_count_cons
      have own : level c'.key (c'.key :: held) = level c'.key held + 1 := List.count_cons_self
      unfold reached
      omega
    · exact absurd ⟨c', hc', rfl⟩ again

/-- There are as many turns as there is capacity, or until nobody waits. -/
theorem takeTurns_fair (capacity : Nat) (held : List String) (waiting : List Candidate) :
    ∃ picks rest : List Candidate, takeTurns capacity held waiting = picks.map Candidate.letIn ∧
      (picks ++ rest).Perm waiting ∧ picks.length = min capacity waiting.length ∧
      Fair held picks rest := by
  induction capacity generalizing held waiting with
  | zero =>
    exact ⟨[], waiting, rfl, List.Perm.refl _, (Nat.zero_min _).symm,
      ⟨List.forall_mem_nil _, List.forall_mem_nil _⟩⟩
  | succ capacity ih =>
    rw [takeTurns]
    cases found : turn? held waiting with
    | none =>
      rw [turn?_eq_none found]
      exact ⟨[], [], rfl, List.Perm.refl _, (Nat.min_zero _).symm,
        ⟨List.forall_mem_nil _, List.forall_mem_nil _⟩⟩
    | some c =>
      have listed := turn?_mem found
      obtain ⟨picks, rest, decided, perm, count, fair⟩ := ih (c.key :: held) (waiting.erase c)
      have whole : (c :: picks ++ rest).Perm waiting :=
        (perm.cons c).trans (List.perm_cons_erase listed).symm
      refine ⟨c :: picks, rest, congrArg (c.letIn :: ·) decided, whole, ?_, fair.turn ?_⟩
      · have shorter := List.length_erase_of_mem listed
        have some := List.length_pos_of_mem listed
        rw [List.length_cons]
        omega
      · intro w hw
        exact turn?_precedes found w (whole.mem_iff.mp (List.mem_append_right _ hw))

/-! ### Who waits -/

theorem waitingInTurn_perm (distinct : cs.Nodup) :
    (waitingInTurn cs).Perm (cs.filter (!·.filled)) := by
  refine byKey_perm keys_nodup (distinct.filter _) ?_ ?_
  · intro c hc
    exact mem_keys.mpr ⟨c, List.mem_of_mem_filter hc, rfl⟩
  · intro key
    rw [group_filter]
    exact List.mergeSort_perm _ _

/-- The places of a key that are filled, or are to be. -/
def places (picks cs : List Candidate) (key : String) : Nat :=
  (group key (cs.filter (·.filled))).length + (group key picks).length

theorem level_keys : level key (cs.map (·.key)) = (group key cs).length := by
  rw [level, List.count, List.countP_map, List.countP_eq_length_filter]
  rfl

theorem reached_places : reached ((cs.filter (·.filled)).map (·.key)) picks key = places picks cs key := by
  rw [reached, places, level_keys, level_keys]

/-- What round robin lets in of the candidates. -/
structure ByTurns (limit : Int) (cs picks : List Candidate) : Prop where
  waiting : ∀ c ∈ picks, c ∈ cs ∧ c.filled = false
  once : picks.Nodup
  /-- As many as wait, or as there is room for. -/
  count : (picks.length : Int) =
    min (max 0 (limit - (cs.filter (·.filled)).length)) (cs.filter (!·.filled)).length
  /-- Nobody is let in before an older one of its key. -/
  oldest : ∀ c ∈ picks, ∀ w ∈ cs, w.filled = false → w.key = c.key → w.sortId < c.sortId → w ∈ picks
  /-- No key gets ahead of one that still waits by more than one place. -/
  even : ∀ c ∈ picks, ∀ w ∈ cs, w.filled = false → w ∉ picks →
    places picks cs c.key ≤ places picks cs w.key + 1

theorem groupRoundRobin_fair (limit : Int) (cs : List Candidate) (distinct : (cs.map (·.sortId)).Nodup) :
    ∃ picks : List Candidate, evaluate .groupRoundRobin limit cs = picks.map Candidate.letIn ∧
      ByTurns limit cs picks := by
  have perm := waitingInTurn_perm distinct.of_map
  obtain ⟨picks, rest, decided, whole, count, fair⟩ :=
    takeTurns_fair (limit.toNat - ((cs.filter (·.filled)).map (·.key)).length)
      ((cs.filter (·.filled)).map (·.key)) (waitingInTurn cs)
  have waits : ∀ {c}, c ∈ picks ++ rest ↔ c ∈ cs ∧ c.filled = false := by
    intro c
    rw [(whole.trans perm).mem_iff, List.mem_filter, Bool.not_eq_true']
  have left : ∀ w ∈ cs, w.filled = false → w ∉ picks → w ∈ rest := fun w hw waiting notPicked =>
    (List.mem_append.mp (waits.mpr ⟨hw, waiting⟩)).resolve_left notPicked
  have once : (picks ++ rest).Nodup :=
    (whole.trans perm).nodup_iff.mpr (distinct.of_map.filter _)
  refine ⟨picks, decided, fun c hc => waits.mp (List.mem_append_left _ hc),
    (List.nodup_append.mp once).1, ?_, ?_, ?_⟩
  · rw [List.length_map, perm.length_eq] at count
    omega
  · intro c hc w hw waiting same older
    by_contra notPicked
    have younger := fair.oldest c hc w (left w hw waiting notPicked) same
    omega
  · intro c hc w hw waiting notPicked
    have even := fair.even c hc w (left w hw waiting notPicked)
    rwa [reached_places, reached_places] at even

/-- The first user holds a place and has two mails waiting, the second has one. -/
def crowd : List Candidate :=
  [⟨⟨1, 0⟩, "a", 1, true, "mail", []⟩, ⟨⟨2, 0⟩, "a", 2, false, "mail", []⟩,
   ⟨⟨3, 0⟩, "a", 3, false, "mail", []⟩, ⟨⟨4, 0⟩, "b", 4, false, "mail", [7]⟩]

/-- With two places left the second comes first, although that mail is the youngest. -/
theorem crowd_by_turns : evaluate .groupRoundRobin 3 crowd =
      [⟨⟨4, 0⟩, "mail", .deferred 7⟩, ⟨⟨2, 0⟩, "mail", .queued⟩] ∧
    (crowd.map (·.sortId)).Nodup ∧
    ∃ picks : List Candidate, evaluate .groupRoundRobin 3 crowd = picks.map Candidate.letIn ∧
      ByTurns 3 crowd picks :=
  ⟨by cbv, by decide, groupRoundRobin_fair 3 crowd (by decide)⟩

end WorkflowEngine.Admission
