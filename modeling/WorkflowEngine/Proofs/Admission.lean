import Mathlib.Data.List.Nodup
import Mathlib.Data.List.Perm.Subperm
import Mathlib.Data.String.Basic
import WorkflowEngine.Admission.Policy

/-!
What the policies decide. Each decision lets in a candidate that waits or cancels one, no candidate
is decided about twice, and those that hold capacity afterwards are within the limit.
-/

namespace WorkflowEngine.Admission

variable {c : Candidate} {cs : List Candidate} {d : Decision} {limit : Nat} {key : String}

/-! ### Keys -/

theorem mem_eraseReps_loop {x a : String} {l seen : List String} :
    x ∈ List.eraseRepsBy.loop (· == ·) a l seen ↔ x = a ∨ x ∈ l ∨ x ∈ seen := by
  induction l generalizing a seen with
  | nil => simp [List.eraseRepsBy.loop, or_comm]
  | cons b rest ih =>
    unfold List.eraseRepsBy.loop
    split
    · rename_i same
      rw [ih, eq_of_beq same, List.mem_cons]
      tauto
    · rw [ih, List.mem_cons, List.mem_cons]
      tauto

theorem eraseReps_loop_ascending {a : String} {l seen : List String}
    (sorted : (a :: l).Pairwise (· ≤ ·)) (done : (a :: seen).Pairwise (· > ·)) :
    (List.eraseRepsBy.loop (· == ·) a l seen).Pairwise (· < ·) := by
  induction l generalizing a seen with
  | nil => exact List.pairwise_reverse.mpr done
  | cons b rest ih =>
    obtain ⟨least, ordered⟩ := List.pairwise_cons.mp sorted
    unfold List.eraseRepsBy.loop
    split
    · rename_i same
      rw [eq_of_beq same] at done ⊢
      exact ih ordered done
    · rename_i differ
      have less : a < b := lt_of_le_of_ne (least b List.mem_cons_self) (by simpa using differ)
      refine ih ordered (List.pairwise_cons.mpr ⟨?_, done⟩)
      intro z hz
      rcases List.mem_cons.mp hz with rfl | earlier
      · exact less
      · exact lt_trans ((List.pairwise_cons.mp done).1 z earlier) less

theorem keys_nodup : (keys cs).Nodup := by
  have sorted : ((cs.map (·.key)).mergeSort (fun a b => decide (a ≤ b))).Pairwise (· ≤ ·) := by
    have ordered : ((cs.map (·.key)).mergeSort (fun a b => decide (a ≤ b))).Pairwise
        fun a b => decide (a ≤ b) = true :=
      List.pairwise_mergeSort (by simpa using fun a b c => le_trans) (by simpa using le_total) _
    exact ordered.imp (by simp)
  unfold keys List.eraseReps List.eraseRepsBy
  split
  · exact .nil
  · rename_i first rest split
    rw [split] at sorted
    exact (eraseReps_loop_ascending sorted (List.pairwise_singleton _ _)).imp fun less => ne_of_lt less

theorem mem_keys : key ∈ keys cs ↔ ∃ c ∈ cs, c.key = key := by
  have listed : key ∈ keys cs ↔ key ∈ (cs.map (·.key)).mergeSort (fun a b => decide (a ≤ b)) := by
    unfold keys List.eraseReps List.eraseRepsBy
    split
    · simp_all
    · rename_i split
      rw [split, mem_eraseReps_loop]
      simp
  rw [listed, List.mem_mergeSort, List.mem_map]

theorem mem_group : c ∈ group key cs ↔ c ∈ cs ∧ c.key = key := by
  simp [group]

theorem group_filter {p : Candidate → Bool} : group key (cs.filter p) = (group key cs).filter p := by
  simp only [group, List.filter_filter, Bool.and_comm]

/-- The groups of all keys make up the whole. -/
theorem byKey_perm {ks : List String} {f : String → List Candidate} (once : ks.Nodup)
    (distinct : cs.Nodup) (listed : ∀ c ∈ cs, c.key ∈ ks)
    (each : ∀ key, (f key).Perm (group key cs)) : (ks.flatMap f).Perm cs := by
  have apart : (ks.flatMap f).Nodup := by
    refine List.nodup_flatMap.mpr ⟨?_, once.imp ?_⟩
    · intro key _
      exact (each key).nodup_iff.mpr (distinct.filter _)
    · intro key key' differ
      refine List.disjoint_left.mpr fun c hc hc' => differ ?_
      rw [← (mem_group.mp ((each key).mem_iff.mp hc)).2]
      exact (mem_group.mp ((each key').mem_iff.mp hc')).2
  refine (List.perm_ext_iff_of_nodup apart distinct).mpr fun c => ?_
  rw [List.mem_flatMap]
  constructor
  · rintro ⟨key, -, hc⟩
    exact (mem_group.mp ((each key).mem_iff.mp hc)).1
  · intro hc
    exact ⟨c.key, listed c hc, (each c.key).mem_iff.mpr (mem_group.mpr ⟨hc, rfl⟩)⟩

/-! ### What is decided -/

/-- The decision lets a waiting candidate in or cancels a candidate. -/
def Backed (cs : List Candidate) (d : Decision) : Prop :=
  ∃ c ∈ cs, d = c.cancel ∨ (c.filled = false ∧ d = c.letIn)

/-- Each task is a candidate once. -/
def Distinct (cs : List Candidate) : Prop := (cs.map (·.task.id)).Nodup

theorem Backed.mono {cs' : List Candidate} (backed : Backed cs d) (sub : ∀ c ∈ cs, c ∈ cs') :
    Backed cs' d := by
  obtain ⟨c, hc, verdict⟩ := backed
  exact ⟨c, sub c hc, verdict⟩

theorem Distinct.eq_of_task (distinct : Distinct cs) {c' : Candidate} (hc : c ∈ cs) (hc' : c' ∈ cs)
    (same : c.task.id = c'.task.id) : c = c' :=
  List.inj_on_of_nodup_map distinct hc hc' same

theorem Distinct.sublist {cs' : List Candidate} (distinct : Distinct cs) (sub : cs'.Sublist cs) :
    Distinct cs' :=
  (sub.map _).nodup distinct

/-- What is decided key by key is decided about different tasks. -/
theorem byKey_nodup {α : Type} {f : String → List α} {task : α → TaskId} (distinct : Distinct cs)
    (once : ∀ key, ((f key).map task).Nodup)
    (own : ∀ key, ∀ a ∈ f key, ∃ c ∈ group key cs, c.task.id = task a) :
    (((keys cs).flatMap f).map task).Nodup := by
  rw [List.map_flatMap, List.nodup_flatMap]
  refine ⟨fun key _ => once key, keys_nodup.imp ?_⟩
  intro key key' differ
  refine List.disjoint_left.mpr ?_
  intro id inFirst inSecond
  obtain ⟨a, ha, rfl⟩ := List.mem_map.mp inFirst
  obtain ⟨a', ha', same⟩ := List.mem_map.mp inSecond
  obtain ⟨c, hc, task⟩ := own key a ha
  obtain ⟨c', hc', task'⟩ := own key' a' ha'
  obtain ⟨listed, rfl⟩ := mem_group.mp hc
  obtain ⟨listed', rfl⟩ := mem_group.mp hc'
  rw [distinct.eq_of_task listed listed' (by rw [task, task', same])] at differ
  exact differ rfl

/-! ### Keys in turn -/

theorem turn?_mem {held : List String} (h : turn? held cs = some c) : c ∈ cs := by
  induction cs generalizing c with
  | nil => cases h
  | cons first rest ih =>
    simp only [turn?] at h
    split at h
    · cases h
      exact List.mem_cons_self
    · rename_i best found
      split at h
      · cases h
        exact List.mem_cons_of_mem _ (ih found)
      · cases h
        exact List.mem_cons_self

/-- Those let in wait, each is let in once, and there is capacity for all of them. -/
theorem takeTurns_picks (capacity : Nat) (held : List String) (waiting : List Candidate) :
    ∃ picks : List Candidate, takeTurns capacity held waiting = picks.map Candidate.letIn ∧
      picks.Subperm waiting ∧ picks.length ≤ capacity := by
  induction capacity generalizing held waiting with
  | zero => exact ⟨[], rfl, List.nil_subperm, Nat.le_refl 0⟩
  | succ capacity ih =>
    unfold takeTurns
    split
    · exact ⟨[], rfl, List.nil_subperm, Nat.zero_le _⟩
    · rename_i c found
      obtain ⟨picks, decided, sub, bounded⟩ := ih (c.key :: held) (waiting.erase c)
      refine ⟨c :: picks, by rw [decided, List.map_cons], ?_, Nat.succ_le_succ bounded⟩
      have rest := (List.subperm_cons c).mpr sub
      exact rest.trans (List.perm_cons_erase (turn?_mem found)).symm.subperm

/-- The candidates that round robin chooses from. -/
def waitingInTurn (cs : List Candidate) : List Candidate :=
  (keys cs).flatMap fun key => oldestFirst ((group key cs).filter (!·.filled))

theorem mem_oldestFirst : c ∈ oldestFirst cs ↔ c ∈ cs := List.mem_mergeSort

theorem mem_newestFirst : c ∈ newestFirst cs ↔ c ∈ cs := List.mem_mergeSort

theorem mem_waitingInTurn (h : c ∈ waitingInTurn cs) : c ∈ cs ∧ c.filled = false := by
  obtain ⟨key, _, hc⟩ := List.mem_flatMap.mp h
  obtain ⟨inGroup, waits⟩ := List.mem_filter.mp (mem_oldestFirst.mp hc)
  exact ⟨(mem_group.mp inGroup).1, by simpa using waits⟩

theorem Distinct.oldestFirst (distinct : Distinct cs) : Distinct (oldestFirst cs) :=
  ((List.mergeSort_perm _ _).map _).nodup_iff.mpr distinct

theorem Distinct.newestFirst (distinct : Distinct cs) : Distinct (newestFirst cs) :=
  ((List.mergeSort_perm _ _).map _).nodup_iff.mpr distinct

theorem Distinct.waitingInTurn (distinct : Distinct cs) : Distinct (waitingInTurn cs) := by
  refine byKey_nodup distinct ?_ ?_
  · intro key
    exact (distinct.sublist (List.filter_sublist.trans List.filter_sublist)).oldestFirst
  · intro key c hc
    exact ⟨c, (List.mem_filter.mp (mem_oldestFirst.mp hc)).1, rfl⟩

theorem groupRoundRobin_picks (limit : Nat) (distinct : Distinct cs) :
    ∃ picks : List Candidate, groupRoundRobin limit cs = picks.map Candidate.letIn ∧
      Distinct picks ∧ (∀ c ∈ picks, c ∈ cs ∧ c.filled = false) ∧
      picks.length ≤ limit - (cs.filter (·.filled)).length := by
  obtain ⟨picks, decided, sub, bounded⟩ :=
    takeTurns_picks (limit - ((cs.filter (·.filled)).map (·.key)).length)
      ((cs.filter (·.filled)).map (·.key)) (waitingInTurn cs)
  obtain ⟨chosen, perm, sublist⟩ := sub
  refine ⟨picks, decided, ?_, fun c hc => mem_waitingInTurn (sublist.subset (perm.mem_iff.mpr hc)),
    by simpa using bounded⟩
  exact (perm.map _).nodup_iff.mp (distinct.waitingInTurn.sublist sublist)

/-! ### Limits for each key -/

theorem keepNewest_backed (h : d ∈ keepNewest limit cs) : Backed cs d := by
  rcases List.mem_append.mp h with kept | dropped
  · obtain ⟨c, hc, rfl⟩ := List.mem_map.mp kept
    obtain ⟨ranked, waits⟩ := List.mem_filter.mp hc
    exact ⟨c, mem_newestFirst.mp (List.mem_of_mem_take ranked), Or.inr ⟨by simpa using waits, rfl⟩⟩
  · obtain ⟨c, hc, rfl⟩ := List.mem_map.mp dropped
    exact ⟨c, mem_newestFirst.mp (List.mem_of_mem_drop hc), Or.inl rfl⟩

theorem keepNewest_nodup (distinct : Distinct cs) :
    ((keepNewest limit cs).map (·.task.id)).Nodup := by
  have parts : (((newestFirst cs).take limit).filter (!·.filled) ++
      (newestFirst cs).drop limit).Sublist (newestFirst cs) := by
    conv => rhs; rw [← List.take_append_drop limit (newestFirst cs)]
    exact List.filter_sublist.append_right _
  have tasks := distinct.newestFirst.sublist parts
  unfold Distinct at tasks
  simpa [keepNewest, Function.comp_def, Candidate.letIn, Candidate.cancel] using tasks

theorem keepOldest_backed (h : d ∈ keepOldest limit cs) : Backed cs d := by
  have waiting : ∀ c ∈ oldestFirst (cs.filter (!·.filled)), c ∈ cs ∧ c.filled = false := by
    intro c hc
    obtain ⟨listed, waits⟩ := List.mem_filter.mp (mem_oldestFirst.mp hc)
    exact ⟨listed, by simpa using waits⟩
  rcases List.mem_append.mp h with kept | dropped
  · obtain ⟨c, hc, rfl⟩ := List.mem_map.mp kept
    obtain ⟨listed, waits⟩ := waiting c (List.mem_of_mem_take hc)
    exact ⟨c, listed, Or.inr ⟨waits, rfl⟩⟩
  · obtain ⟨c, hc, rfl⟩ := List.mem_map.mp dropped
    exact ⟨c, (waiting c (List.mem_of_mem_drop hc)).1, Or.inl rfl⟩

theorem keepOldest_nodup (distinct : Distinct cs) :
    ((keepOldest limit cs).map (·.task.id)).Nodup := by
  have waiting : Distinct (oldestFirst (cs.filter (!·.filled))) :=
    (distinct.sublist List.filter_sublist).oldestFirst
  unfold Distinct at waiting
  rw [← List.take_append_drop (limit - (cs.filter (·.filled)).length)
    (oldestFirst (cs.filter (!·.filled)))] at waiting
  simpa [keepOldest, Function.comp_def, Candidate.letIn, Candidate.cancel] using waiting

/-! ### Every policy -/

theorem evaluate_backed {policy : Policy} {limit : Int} (distinct : Distinct cs)
    (h : d ∈ evaluate policy limit cs) : Backed cs d := by
  have whole : ∀ key, ∀ c ∈ group key cs, c ∈ cs := fun key c hc => (mem_group.mp hc).1
  cases policy with
  | groupRoundRobin =>
    obtain ⟨picks, decided, _, waiting, _⟩ :=
      groupRoundRobin_picks limit.toNat distinct
    rw [evaluate, decided] at h
    obtain ⟨c, hc, rfl⟩ := List.mem_map.mp h
    exact ⟨c, (waiting c hc).1, Or.inr ⟨(waiting c hc).2, rfl⟩⟩
  | cancelInProgress =>
    obtain ⟨key, _, hd⟩ := List.mem_flatMap.mp h
    exact (keepNewest_backed hd).mono (whole key)
  | cancelNewest =>
    obtain ⟨key, _, hd⟩ := List.mem_flatMap.mp h
    exact (keepOldest_backed hd).mono (whole key)

theorem Backed.task (backed : Backed cs d) : ∃ c ∈ cs, c.task.id = d.task.id := by
  obtain ⟨c, hc, rfl | ⟨_, rfl⟩⟩ := backed
  · exact ⟨c, hc, rfl⟩
  · exact ⟨c, hc, rfl⟩

/-- No task is decided about twice. -/
theorem evaluate_nodup {policy : Policy} {limit : Int} (distinct : Distinct cs) :
    ((evaluate policy limit cs).map (·.task.id)).Nodup := by
  have inGroup : ∀ key, Distinct (group key cs) := fun key => distinct.sublist List.filter_sublist
  cases policy with
  | groupRoundRobin =>
    obtain ⟨picks, decided, once, _, _⟩ := groupRoundRobin_picks limit.toNat distinct
    unfold Distinct at once
    simpa [evaluate, decided, Function.comp_def, Candidate.letIn] using once
  | cancelInProgress =>
    exact byKey_nodup distinct (fun key => keepNewest_nodup (inGroup key))
      fun key d hd => (keepNewest_backed hd).task
  | cancelNewest =>
    exact byKey_nodup distinct (fun key => keepOldest_nodup (inGroup key))
      fun key d hd => (keepOldest_backed hd).task

/-! ### Capacity -/

/-- The candidates that hold capacity once the decisions are carried out. -/
def holders (ds : List Decision) (cs : List Candidate) : List Candidate :=
  cs.filter fun c => decide (c.letIn ∈ ds) || (c.filled && !decide (c.cancel ∈ ds))

theorem mem_holders {ds : List Decision} :
    c ∈ holders ds cs ↔ c ∈ cs ∧ (c.letIn ∈ ds ∨ (c.filled = true ∧ c.cancel ∉ ds)) := by
  simp [holders]

theorem letIn_ne_cancel {c' : Candidate} : c.letIn ≠ c'.cancel := by
  intro same
  have verdict := congrArg Decision.verdict same
  simp only [Candidate.letIn, Candidate.cancel] at verdict
  split at verdict <;> cases verdict

theorem Distinct.eq_of_letIn (distinct : Distinct cs) {c' : Candidate} (hc : c ∈ cs) (hc' : c' ∈ cs)
    (same : c.letIn = c'.letIn) : c = c' :=
  distinct.eq_of_task hc hc' (congrArg (fun d : Decision => d.task.id) same)

theorem holders_length_le {ds : List Decision} {allowed : List Candidate} (distinct : Distinct cs)
    (sub : ∀ c ∈ holders ds cs, c.key = key → c ∈ allowed) :
    (group key (holders ds cs)).length ≤ allowed.length := by
  have nodup : (group key (holders ds cs)).Nodup :=
    (List.filter_sublist.trans List.filter_sublist).nodup distinct.of_map
  refine (List.subperm_of_subset nodup ?_).length_le
  intro c hc
  obtain ⟨holds, same⟩ := mem_group.mp hc
  exact sub c holds same

/-- Round robin never lets in more than the limit. -/
theorem groupRoundRobin_capacity (limit : Nat) (distinct : Distinct cs) :
    (holders (groupRoundRobin limit cs) cs).length ≤
      max limit (cs.filter (·.filled)).length := by
  obtain ⟨picks, decided, once, waiting, bounded⟩ := groupRoundRobin_picks limit distinct
  have sub : holders (groupRoundRobin limit cs) cs ⊆ cs.filter (·.filled) ++ picks := by
    intro c hc
    obtain ⟨listed, admitted | ⟨filled, _⟩⟩ := mem_holders.mp hc
    · rw [decided] at admitted
      obtain ⟨c', hc', same⟩ := List.mem_map.mp admitted
      rw [distinct.eq_of_letIn listed (waiting c' hc').1 same.symm]
      exact List.mem_append_right _ hc'
    · exact List.mem_append_left _ (List.mem_filter.mpr ⟨listed, filled⟩)
  have nodup : (holders (groupRoundRobin limit cs) cs).Nodup :=
    List.filter_sublist.nodup distinct.of_map
  have total := (List.subperm_of_subset nodup sub).length_le
  rw [List.length_append] at total
  omega

/-- What was decided about a candidate was decided for its key. -/
theorem decided_in_group {f : List Candidate → List Decision} (distinct : Distinct cs)
    (backed : ∀ cs, ∀ d ∈ f cs, Backed cs d) (hc : c ∈ cs) (same : d.task.id = c.task.id)
    (h : d ∈ (keys cs).flatMap fun key => f (group key cs)) : d ∈ f (group c.key cs) := by
  obtain ⟨key, _, hd⟩ := List.mem_flatMap.mp h
  obtain ⟨c', hc', task⟩ := (backed _ d hd).task
  obtain ⟨listed, rfl⟩ := mem_group.mp hc'
  rw [distinct.eq_of_task hc listed (by rw [task, same])]
  exact hd

/-- Of each key at most the limit stays. -/
theorem cancelInProgress_capacity (limit : Nat) (key : String) (distinct : Distinct cs) :
    (group key (holders (cancelInProgress limit cs) cs)).length ≤ limit := by
  have kept : ∀ c ∈ holders (cancelInProgress limit cs) cs, c.key = key →
      c ∈ (newestFirst (group key cs)).take limit := by
    rintro c hc rfl
    obtain ⟨listed, admitted | ⟨_, spared⟩⟩ := mem_holders.mp hc
    · have decided := decided_in_group distinct (fun _ _ => keepNewest_backed) listed rfl admitted
      rcases List.mem_append.mp decided with join | leave
      · obtain ⟨c', hc', same⟩ := List.mem_map.mp join
        have ranked := (List.mem_filter.mp hc').1
        have listed' := (mem_group.mp (mem_newestFirst.mp (List.mem_of_mem_take ranked))).1
        obtain rfl := distinct.eq_of_letIn listed listed' same.symm
        exact ranked
      · obtain ⟨c', _, same⟩ := List.mem_map.mp leave
        exact absurd same.symm letIn_ne_cancel
    · have ranked : c ∈ newestFirst (group c.key cs) :=
        mem_newestFirst.mpr (mem_group.mpr ⟨listed, rfl⟩)
      rw [← List.take_append_drop limit (newestFirst (group c.key cs))] at ranked
      refine (List.mem_append.mp ranked).resolve_right fun dropped => spared ?_
      refine List.mem_flatMap.mpr ⟨c.key, mem_keys.mpr ⟨c, listed, rfl⟩, ?_⟩
      exact List.mem_append_right _ (List.mem_map_of_mem dropped)
  exact (holders_length_le distinct kept).trans (List.length_take_le _ _)

/-- Of each key none is let in beyond the limit. -/
theorem cancelNewest_capacity (limit : Nat) (key : String) (distinct : Distinct cs) :
    (group key (holders (cancelNewest limit cs) cs)).length ≤
      max limit (group key (cs.filter (·.filled))).length := by
  let allowed := (group key cs).filter (·.filled) ++
    (oldestFirst ((group key cs).filter (!·.filled))).take
      (limit - ((group key cs).filter (·.filled)).length)
  have kept : ∀ c ∈ holders (cancelNewest limit cs) cs, c.key = key → c ∈ allowed := by
    rintro c hc rfl
    obtain ⟨listed, admitted | ⟨filled, _⟩⟩ := mem_holders.mp hc
    · have decided := decided_in_group distinct (fun _ _ => keepOldest_backed) listed rfl admitted
      rcases List.mem_append.mp decided with join | leave
      · obtain ⟨c', hc', same⟩ := List.mem_map.mp join
        have waits := (List.mem_filter.mp (mem_oldestFirst.mp (List.mem_of_mem_take hc'))).1
        obtain rfl := distinct.eq_of_letIn listed (mem_group.mp waits).1 same.symm
        exact List.mem_append_right _ hc'
      · obtain ⟨c', _, same⟩ := List.mem_map.mp leave
        exact absurd same.symm letIn_ne_cancel
    · exact List.mem_append_left _
        (List.mem_filter.mpr ⟨mem_group.mpr ⟨listed, rfl⟩, filled⟩)
  have bounded := holders_length_le distinct kept
  have taken := List.length_take_le (limit - ((group key cs).filter (·.filled)).length)
    (oldestFirst ((group key cs).filter (!·.filled)))
  rw [List.length_append, ← group_filter] at bounded
  rw [← group_filter] at taken
  omega

end WorkflowEngine.Admission
