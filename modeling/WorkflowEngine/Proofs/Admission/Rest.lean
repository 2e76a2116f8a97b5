import WorkflowEngine.Proofs.Admission.RoundRobin

/-!
What a policy leaves behind. Once its decisions are carried out it has nothing more to decide: nobody
waits, or, if keys take turns, there is no room left, and no key holds more than it may.
-/

namespace WorkflowEngine.Admission

variable {c : Candidate} {cs picks : List Candidate} {d : Decision} {ds : List Decision} {limit : Nat}
  {key : String}

/-! ### The candidates that remain -/

/-- A candidate once the decisions are carried out: filled if it was let in, gone if it was cancelled. -/
def Candidate.after (ds : List Decision) (c : Candidate) : Option Candidate :=
  if c.letIn ∈ ds then some { c with filled := true }
  else if c.cancel ∈ ds then none
  else some c

def remain (ds : List Decision) (cs : List Candidate) : List Candidate := cs.filterMap (·.after ds)

theorem remain_nil : remain [] cs = cs := by
  have none (c : Candidate) : c.after [] = some c := by simp [Candidate.after]
  simp only [remain, none, List.filterMap_some]

/-- Decisions may be carried out one after the other, if each is about a task of its own. -/
theorem remain_cons (fresh : d.task.id ∉ ds.map (·.task.id)) :
    remain (d :: ds) cs = remain ds (remain [d] cs) := by
  have other {d' : Decision} (hd : d' ∈ ds) (same : d'.task.id = d.task.id) : False :=
    fresh (same ▸ List.mem_map_of_mem (f := fun d : Decision => d.task.id) hd)
  rw [remain, remain, remain, List.filterMap_filterMap]
  refine List.filterMap_congr fun c _ => ?_
  unfold Candidate.after
  by_cases joins : c.letIn = d
  · have later : c.letIn ∉ ds := fun hd => other hd (by rw [joins])
    have stays : c.cancel ∉ ds := fun hd => other hd (by rw [← joins]; rfl)
    have filled : ({ c with filled := true } : Candidate).letIn ∉ ds ∧
        ({ c with filled := true } : Candidate).cancel ∉ ds := ⟨later, stays⟩
    simp [joins, filled]
  · by_cases leaves : c.cancel = d
    · have later : c.letIn ∉ ds := fun hd => other hd (by rw [← leaves]; rfl)
      simp [joins, leaves, later]
    · simp [joins, leaves]

theorem remain_filled :
    (remain ds cs).filter (·.filled) = (holders ds cs).map fun c => { c with filled := true } := by
  rw [remain, List.filter_filterMap, holders, ← List.filterMap_eq_map, List.filterMap_filter]
  refine List.filterMap_congr fun c _ => ?_
  unfold Candidate.after
  by_cases joins : c.letIn ∈ ds
  · simp [joins]
  · by_cases leaves : c.cancel ∈ ds
    · simp [joins, leaves]
    · cases filled : c.filled with
      | false => simp [joins, leaves, filled]
      | true =>
        have same : ({ c with filled := true } : Candidate) = c := by rw [← filled]
        simp [joins, leaves, filled, same]

/-- Nobody waits if all who did were decided about. -/
theorem remain_all_filled (decided : ∀ c ∈ cs, c.filled = false → c.letIn ∈ ds ∨ c.cancel ∈ ds) :
    ∀ c ∈ remain ds cs, c.filled = true := by
  intro c' hc'
  obtain ⟨c, hc, after⟩ := List.mem_filterMap.mp hc'
  unfold Candidate.after at after
  split at after
  · cases after
    rfl
  · rename_i notIn
    split at after
    · cases after
    · rename_i spared
      cases after
      by_contra waits
      exact (decided c' hc (by simpa using waits)).elim notIn spared

/-! ### Nothing to decide -/

theorem waitingInTurn_nil (filled : ∀ c ∈ cs, c.filled = true) : waitingInTurn cs = [] := by
  refine List.eq_nil_iff_forall_not_mem.mpr fun c hc => ?_
  obtain ⟨listed, waits⟩ := mem_waitingInTurn hc
  rw [filled c listed] at waits
  cases waits

theorem groupRoundRobin_rests
    (rests : (∀ c ∈ cs, c.filled = true) ∨ limit ≤ (cs.filter (·.filled)).length) :
    groupRoundRobin limit cs = [] := by
  change takeTurns (limit - ((cs.filter (·.filled)).map (·.key)).length) _ (waitingInTurn cs) = []
  rcases rests with filled | full
  · rw [waitingInTurn_nil filled]
    cases limit - ((cs.filter (·.filled)).map (·.key)).length <;> rfl
  · rw [List.length_map, Nat.sub_eq_zero_of_le full]
    rfl

theorem filter_waiting_nil (filled : ∀ c ∈ cs, c.filled = true) : cs.filter (!·.filled) = [] :=
  List.filter_eq_nil_iff.mpr fun c hc => by simp [filled c hc]

theorem cancelInProgress_rests (filled : ∀ c ∈ cs, c.filled = true)
    (within : ∀ key, (group key cs).length ≤ limit) : cancelInProgress limit cs = [] := by
  refine List.flatMap_eq_nil_iff.mpr fun key _ => ?_
  have size : (newestFirst (group key cs)).length ≤ limit :=
    (List.mergeSort_perm _ _).length_eq.trans_le (within key)
  have waiting : ((newestFirst (group key cs)).take limit).filter (!·.filled) = [] :=
    filter_waiting_nil fun c hc =>
      filled c (mem_group.mp (mem_newestFirst.mp (List.mem_of_mem_take hc))).1
  rw [keepNewest, waiting, List.drop_eq_nil_of_le size]
  rfl

theorem cancelNewest_rests (filled : ∀ c ∈ cs, c.filled = true) : cancelNewest limit cs = [] := by
  refine List.flatMap_eq_nil_iff.mpr fun key _ => ?_
  have waiting : (group key cs).filter (!·.filled) = [] :=
    filter_waiting_nil fun c hc => filled c (mem_group.mp hc).1
  simp only [keepOldest, waiting, oldestFirst, List.mergeSort_nil, List.take_nil, List.drop_nil,
    List.map_nil, List.append_nil]

/-! ### After the decisions -/

/-- Those let in fill what room there was, unless nobody is left to wait. -/
theorem groupRoundRobin_remain (distinct : Distinct cs) :
    groupRoundRobin limit (remain (groupRoundRobin limit cs) cs) = [] := by
  have perm : (waitingInTurn cs).Perm (cs.filter (!·.filled)) := waitingInTurn_perm distinct.of_map
  obtain ⟨picks, rest, decided, whole, count, -⟩ :=
    takeTurns_fair (limit - ((cs.filter (·.filled)).map (·.key)).length)
      ((cs.filter (·.filled)).map (·.key)) (waitingInTurn cs)
  change groupRoundRobin limit cs = _ at decided
  rw [decided]
  have waits {c : Candidate} : c ∈ picks ++ rest ↔ c ∈ cs ∧ c.filled = false := by
    rw [(whole.trans perm).mem_iff, List.mem_filter, Bool.not_eq_true']
  refine groupRoundRobin_rests ?_
  cases rest with
  | nil =>
    refine Or.inl (remain_all_filled fun c hc waiting => Or.inl (List.mem_map_of_mem ?_))
    simpa using waits.mpr ⟨hc, waiting⟩
  | cons w rest =>
    refine Or.inr ?_
    have once : (picks ++ w :: rest).Nodup :=
      (whole.trans perm).nodup_iff.mpr (distinct.of_map.filter _)
    have apart : (cs.filter (·.filled) ++ picks).Nodup := by
      refine List.nodup_append.mpr ⟨distinct.of_map.filter _, (List.nodup_append.mp once).1, ?_⟩
      rintro c filled _ picked rfl
      have waiting := (waits.mp (List.mem_append_left _ picked)).2
      rw [(List.mem_filter.mp filled).2] at waiting
      cases waiting
    have held : cs.filter (·.filled) ++ picks ⊆ holders (picks.map Candidate.letIn) cs := by
      intro c hc
      rcases List.mem_append.mp hc with filled | picked
      · obtain ⟨listed, filled⟩ := List.mem_filter.mp filled
        refine mem_holders.mpr ⟨listed, Or.inr ⟨filled, fun gone => ?_⟩⟩
        obtain ⟨w, -, same⟩ := List.mem_map.mp gone
        exact letIn_ne_cancel same
      · exact mem_holders.mpr
          ⟨(waits.mp (List.mem_append_left _ picked)).1, Or.inl (List.mem_map_of_mem picked)⟩
    have size := (List.subperm_of_subset apart held).length_le
    have total := whole.length_eq
    rw [List.length_append, List.length_cons] at total
    rw [List.length_map] at count
    rw [List.length_append] at size
    rw [remain_filled, List.length_map]
    omega

theorem cancelInProgress_remain (distinct : Distinct cs) :
    cancelInProgress limit (remain (cancelInProgress limit cs) cs) = [] := by
  have filled : ∀ c ∈ remain (cancelInProgress limit cs) cs, c.filled = true := by
    refine remain_all_filled fun c hc waiting => ?_
    have listed : c.key ∈ keys cs := mem_keys.mpr ⟨c, hc, rfl⟩
    have ranked : c ∈ newestFirst (group c.key cs) := mem_newestFirst.mpr (mem_group.mpr ⟨hc, rfl⟩)
    rw [← List.take_append_drop limit (newestFirst (group c.key cs))] at ranked
    refine (List.mem_append.mp ranked).imp (fun kept => ?_) (fun dropped => ?_)
    · have joins := List.mem_filter (p := (!·.filled)) |>.mpr ⟨kept, by simpa using waiting⟩
      exact List.mem_flatMap.mpr ⟨c.key, listed, List.mem_append_left _ (List.mem_map_of_mem joins)⟩
    · exact List.mem_flatMap.mpr ⟨c.key, listed, List.mem_append_right _ (List.mem_map_of_mem dropped)⟩
  refine cancelInProgress_rests filled fun key => ?_
  have held : (remain (cancelInProgress limit cs) cs).filter (·.filled) = _ := remain_filled
  rw [List.filter_eq_self.mpr filled] at held
  rw [held, group, List.filter_map, List.length_map]
  exact cancelInProgress_capacity limit key distinct

theorem cancelNewest_remain : cancelNewest limit (remain (cancelNewest limit cs) cs) = [] := by
  refine cancelNewest_rests (remain_all_filled fun c hc waiting => ?_)
  have listed : c.key ∈ keys cs := mem_keys.mpr ⟨c, hc, rfl⟩
  have ranked : c ∈ oldestFirst ((group c.key cs).filter (!·.filled)) :=
    mem_oldestFirst.mpr (List.mem_filter.mpr ⟨mem_group.mpr ⟨hc, rfl⟩, by simpa using waiting⟩)
  rw [← List.take_append_drop (limit - ((group c.key cs).filter (·.filled)).length)
    (oldestFirst ((group c.key cs).filter (!·.filled)))] at ranked
  refine (List.mem_append.mp ranked).imp (fun joins => ?_) (fun leaves => ?_)
  · exact List.mem_flatMap.mpr ⟨c.key, listed, List.mem_append_left _ (List.mem_map_of_mem joins)⟩
  · exact List.mem_flatMap.mpr ⟨c.key, listed, List.mem_append_right _ (List.mem_map_of_mem leaves)⟩

/-- A policy decides once. -/
theorem evaluate_remain (policy : Policy) (limit : Int) (distinct : Distinct cs) :
    evaluate policy limit (remain (evaluate policy limit cs) cs) = [] := by
  cases policy with
  | groupRoundRobin => exact groupRoundRobin_remain distinct
  | cancelInProgress => exact cancelInProgress_remain distinct
  | cancelNewest => exact cancelNewest_remain

end WorkflowEngine.Admission
