import WorkflowEngine.Proofs.Store.Redelivery

/-!
Which children count as started. The store keeps every child that was ever named in an order for a
workflow there was: whoever gave the order, and whether or not it came to a run. So a child is run at
most once among all tenants, and not at all once somebody has named it under an external id that was
taken.
-/

namespace WorkflowEngine

open Fallible Store

variable {s s' : Store} {c c' : Creation} {w : RegisteredWorkflow} {step : Step} {n : NewTask} {t : Task}
  {r : RunRequest} {tenant : TenantId} {now : Instant} {more : List Attempt}

/-! ### What keeps the children -/

namespace Store

@[simp] theorem enqueue_children (s : Store) (t : Task) : (s.enqueue t).children = s.children := by
  unfold enqueue
  split <;> rfl

theorem insertTask_children (h : s.insertTask w step n now = .ok (t, s')) :
    s'.children = s.children := by
  unfold insertTask at h
  generalize n.start step = initially at h
  obtain ⟨initial, reason, keys⟩ := initially
  simp only at h
  split at h
  all_goals
    obtain ⟨deadline, _, h⟩ := bind_ok h
    cases h
    simp

end Store

namespace Creation

theorem addTask_children (h : c.addTask w step n now = .ok c') :
    c'.store.children = c.store.children := by
  obtain ⟨t, inserted, _, _⟩ := addTask_eq h
  exact insertTask_children inserted

theorem addRun_children (h : c.addRun w r now = .ok c') : c'.store.children = c.store.children := by
  unfold addRun at h
  split at h
  · cases h
    rfl
  · split at h
    · obtain ⟨c₁, roots, h⟩ := bind_ok h
      cases h
      refine foldlM_ok (P := fun c₁ => c₁.store.children = c.store.children) roots rfl ?_
      intro c₁ step _ c₂ same added
      simp only [addRoot, IdSource.draw] at added
      exact (addTask_children added).trans same
    · unfold addSingle at h
      split at h
      · cases h
        rfl
      · exact addTask_children h

theorem addEvent_children {e : UserEvent} (h : c.addEvent tenant now e = .ok c') :
    c'.store.children = c.store.children := by
  refine foldlM_ok (P := fun c' => c'.store.children = c.store.children) h rfl ?_
  intro c₁ w _ c₂ same added
  exact (addRun_children (c := { c₁ with ids := c₁.ids.draw.2 }) added).trans same

theorem addReady_children {x : WaitingStep} (h : c.addReady tenant now x = .ok c') :
    c'.store.children = c.store.children := by
  simp only [addReady, IdSource.draw] at h
  split at h
  · cases h
    rfl
  · exact addTask_children (c := { c with ids := c.ids.draw.2 }) h

/-- An order for a workflow there is. It is passed over if its child was named before; else it comes to
what an order without a child comes to, and its child is named now. -/
theorem addRequest_named (known : c.store.workflow? tenant r.workflowName = some w)
    (h : c.addRequest tenant now r = .ok c') :
    (∃ k ∈ c.store.children, r.child? = some k) ∧ c' = c ∨
      (∀ k ∈ c.store.children, r.child? ≠ some k) ∧ ∃ c₁, c.addRun w r now = .ok c₁ ∧
        c' = { c₁ with store := { c₁.store with
          children := c.store.children ++ r.child?.toList } } := by
  simp only [addRequest, known] at h
  split at h
  · rename_i alone
    refine Or.inr ⟨by simp [alone], c', h, ?_⟩
    rw [alone, Option.toList_none, List.append_nil, ← addRun_children h]
  · rename_i k named
    split at h
    · rename_i before
      cases h
      exact Or.inl ⟨⟨k, by simpa using before, named⟩, rfl⟩
    · rename_i fresh
      obtain ⟨c₁, added, h⟩ := bind_ok h
      cases h
      refine Or.inr ⟨?_, c₁, added, ?_⟩
      · rintro k' before again
        cases named.symm.trans again
        exact fresh (by simpa using before)
      · rw [named, ← addRun_children added]
        rfl

end Creation

namespace Store

section

variable {a : Attempt} {σ : StrategyId} {d : Admission.Decision} {x : Slot}

theorem failOne_children {f : Failure} {outcome : FailureOutcome}
    (h : s.failOne now tenant f = .ok (outcome, s')) : s'.children = s.children := by
  unfold failOne at h
  split at h
  · cases h
    rfl
  · split at h
    · obtain ⟨next, again, h⟩ := bind_ok h
      obtain ⟨deadline, _, again⟩ := bind_ok again
      cases again
      cases h
      exact enqueue_children _ _
    · cases h
      rfl

theorem assignOne_children {a : Assignment} {o : Option Attempt}
    (h : s.assignOne now tenant a = .ok (o, s')) : s'.children = s.children := by
  simp only [assignOne] at h
  split at h
  · cases h
    rfl
  · obtain ⟨deadline, _, h⟩ := bind_ok h
    cases h
    rfl

theorem carryOut_children : (s.carryOut σ d).children = s.children := by
  unfold carryOut deferTo
  repeat' split
  all_goals rfl

theorem carryOutAll_children {ds : List Admission.Decision} :
    (s.carryOutAll σ ds).children = s.children := by
  induction ds generalizing s with
  | nil => rfl
  | cons d rest ih => exact ih.trans carryOut_children

end

theorem Ending.children {state : TaskState} {p : Option ReleasedTask × Store} {a : Attempt}
    (ending : Ending s tenant a state p) : p.2.children = s.children := by
  cases ending with
  | passed | ended => rfl

theorem single_children {batch cmd : Command} (routine : batch.isRoutine = true)
    (single : cmd ∈ batch.singles) (done : s.obey cmd = .ok (more, s')) : s'.children = s.children := by
  rw [← single_routine single] at routine
  cases executed_single single done with
  | complete tenant a => exact (completeOne_ending s tenant a).children
  | cancel tenant a => exact (cancelOne_ending s tenant a).children
  | fail one => exact failOne_children one
  | assign one => exact assignOne_children one
  | runStrategy => exact carryOutAll_children
  | refreshActive => rw [refreshActive_eq]
  | told => rfl
  | triggerEvents | triggerRuns | matchOutcomes | registerWorkflow => cases routine

/-- Commands that are not orders keep the children. -/
theorem obey_children {cmd : Command} (sound : s.Sound)
    (others : ∀ ids now tenant requests, cmd ≠ .triggerRuns ids now tenant requests)
    (done : s.obey cmd = .ok (more, s')) : s'.children = s.children := by
  by_cases routine : cmd.isRoutine = true
  · refine obey_induction (P := fun s' => s'.children = s.children) sound rfl ?_ done
    exact fun _ _ _ _ single _ same obeyed => (single_children routine single obeyed).trans same
  · cases cmd with
    | triggerEvents ids now tenant events =>
      obtain ⟨c, triggered, done⟩ := bind_ok done
      cases done
      obtain ⟨_, _, triggered⟩ := bind_ok triggered
      refine foldlM_ok (P := fun c => c.store.children = s.children) triggered rfl ?_
      exact fun _ _ _ _ same added => (Creation.addEvent_children added).trans same
    | matchOutcomes ids now tenant events =>
      obtain ⟨c, matched, done⟩ := bind_ok done
      cases done
      obtain ⟨_, _, matched⟩ := bind_ok matched
      refine foldlM_ok (P := fun c => c.store.children = s.children) matched ?_ ?_
      · change (s.noteAll tenant events).children = s.children
        rw [noteAll_only]
      · exact fun _ _ _ _ same added => (Creation.addReady_children added).trans same
    | registerWorkflow tenant w =>
      obtain ⟨_, _, done⟩ := bind_ok done
      cases done
      rfl
    | triggerRuns ids now tenant requests => exact absurd rfl (others ids now tenant requests)
    | _ => exact absurd rfl routine

end Store

/-! ### Orders -/

/-- An order for a workflow there was, and whether it came to a run. -/
structure Order where
  tenant : TenantId
  request : RunRequest
  ran : Bool

/-- The order names the child. -/
def Order.names (o : Order) (k : ChildKey) : Bool := o.request.child? == some k

/-- The stores there are after orders of any tenants, given one by one or many at once, among other
commands; with those orders in the sequence they were given in. An order for a workflow that is not
there changes nothing, and is not listed. -/
inductive Given : List Order → Store → Prop where
  | empty (internalRetries : Int) : Given [] { internalRetries }
  | other {past : List Order} {s s' : Store} {cmd : Command} {more : List Attempt}
      (before : Given past s)
      (others : ∀ ids now tenant requests, cmd ≠ .triggerRuns ids now tenant requests)
      (done : s.obey cmd = .ok (more, s')) : Given past s'
  | order {past : List Order} {c c' : Creation} {tenant : TenantId} {now : Instant} {r : RunRequest}
      {w : RegisteredWorkflow} (before : Given past c.store)
      (known : c.store.workflow? tenant r.workflowName = some w)
      (added : c.addRequest tenant now r = .ok c') :
      Given (past ++ [⟨tenant, r, !c.store.isTaken r.externalId && c'.store.isTaken r.externalId⟩]) c'.store

/-- The orders that a command gives for workflows there are. -/
def Store.orders (s : Store) : Command → List (TenantId × RunRequest)
  | .triggerRuns _ _ tenant requests =>
    (requests.filter fun r => (s.workflow? tenant r.workflowName).isSome).map (tenant, ·)
  | _ => []

def Store.ordersAll (s : Store) : List Command → List (TenantId × RunRequest)
  | [] => []
  | cmd :: rest => s.orders cmd ++ match s.obey cmd with
    | .ok (_, s') => s'.ordersAll rest
    | .error _ => []

namespace Given

variable {past : List Order} {k : ChildKey}

theorem sound (given : Given past s) : s.Sound := by
  induction given with
  | empty internalRetries => exact sound_empty internalRetries
  | other _ _ done ih => exact (obey_moves done).sound ih
  | @order _ c c' _ _ r _ _ _ added ih =>
    have made := Creation.Creates.none.addRequest (List.mem_singleton_self r.externalId) added
    exact made.quiet.sound ih

theorem agenda (given : Given past s) : s.agenda.Sound := by
  induction given with
  | empty internalRetries => exact agenda_empty internalRetries
  | other before _ done ih => exact obey_agendaSound before.sound ih done
  | @order past c c' tenant now r w before known added ih =>
    have advances : Agenda.Advances (fun _ _ => True) c.store.agenda [] c'.store.agenda :=
      Creation.addRequest_advances added
    exact advances.sound ih

theorem steps (given : Given past s) : ∀ w ∈ s.workflows, w.definition.steps ≠ [] :=
  steps_of_agenda given.agenda

/-- The children are those that orders have named. -/
theorem children (given : Given past s) : k ∈ s.children ↔ ∃ o ∈ past, o.names k = true := by
  induction given with
  | empty => simp
  | other before others done ih => rw [obey_children before.sound others done, ih]
  | @order past c c' tenant now r w before known added ih =>
    simp only [List.mem_append, List.mem_singleton, or_and_right, exists_or, exists_eq_left, ← ih]
    -- an order that is passed over names a child that is known already
    rcases Creation.addRequest_named known added with ⟨⟨k', named, again⟩, rfl⟩ | ⟨_, c₁, _, rfl⟩
    · simp only [Order.names, again, beq_iff_eq, Option.some.injEq]
      exact ⟨Or.inl, fun h => h.elim id fun same => same ▸ named⟩
    · simp [Order.names]

/-- A child is run once at most, whoever orders it. -/
theorem once (given : Given past s) (k : ChildKey) : past.countP (fun o => o.ran && o.names k) ≤ 1 := by
  induction given with
  | empty => exact Nat.zero_le 1
  | other _ _ _ ih => exact ih
  | @order past c c' tenant now r w before known added ih =>
    rw [List.countP_append, List.countP_singleton]
    rcases Creation.addRequest_named known added with ⟨_, rfl⟩ | ⟨fresh, _⟩
    · simpa using ih
    · by_cases named : r.child? = some k
      · have first : past.countP (fun o => o.ran && o.names k) = 0 := by
          refine List.countP_eq_zero.mpr fun o ho both => fresh k (before.children.mpr ⟨o, ho, ?_⟩) named
          exact (Bool.and_eq_true_iff.mp both).2
        rw [first, Nat.zero_add]
        split <;> decide
      · simpa [Order.names, named] using ih

theorem foldlM_orders {requests : List RunRequest} (given : Given past c.store)
    (h : requests.foldlM (fun c r => c.addRequest tenant now r) c = .ok c') :
    ∃ later, Given (past ++ later) c'.store ∧ later.map (fun o => (o.tenant, o.request)) =
      (requests.filter fun r => (c.store.workflow? tenant r.workflowName).isSome).map (tenant, ·) := by
  induction requests generalizing c past with
  | nil =>
    cases h
    exact ⟨[], by rwa [List.append_nil], rfl⟩
  | cons r rest ih =>
    rw [List.foldlM_cons] at h
    obtain ⟨c₁, added, followed⟩ := bind_ok h
    have same (name : String) : c₁.store.workflow? tenant name = c.store.workflow? tenant name := by
      obtain ⟨_, new, runs, grows⟩ := Creation.addRequest_answers given.steps added
      exact grows.workflow? name
    cases known : c.store.workflow? tenant r.workflowName with
    | none =>
      have passed : c₁ = c := by simpa [Creation.addRequest, known, eq_comm] using added
      subst passed
      obtain ⟨later, given, listed⟩ := ih given followed
      exact ⟨later, given, by simp [known, listed]⟩
    | some w =>
      obtain ⟨later, given, listed⟩ := ih (given.order known added) followed
      refine ⟨_ :: later, by simpa using given, ?_⟩
      simp only [same] at listed
      simp [known, listed]

theorem obey {cmd : Command} (given : Given past s) (done : s.obey cmd = .ok (more, s')) :
    ∃ later, Given (past ++ later) s' ∧ later.map (fun o => (o.tenant, o.request)) = s.orders cmd := by
  cases cmd with
  | triggerRuns ids now tenant requests =>
    obtain ⟨c, triggered, done⟩ := bind_ok done
    cases done
    obtain ⟨_, _, triggered⟩ := bind_ok triggered
    exact foldlM_orders given triggered
  | _ => exact ⟨[], by simpa using given.other (by simp) done, rfl⟩

/-- Every sequence of commands is covered: the orders in it are those that are listed. -/
theorem all {cmds : List Command} (given : Given past s) (done : s.obeyAll cmds = .ok (more, s')) :
    ∃ later, Given (past ++ later) s' ∧
      later.map (fun o => (o.tenant, o.request)) = s.ordersAll cmds := by
  induction cmds generalizing s past more with
  | nil =>
    cases done
    exact ⟨[], by rwa [List.append_nil], rfl⟩
  | cons cmd rest ih =>
    obtain ⟨⟨_, s₁⟩, obeyed, done⟩ := bind_ok done
    obtain ⟨⟨_, s₂⟩, followed, done⟩ := bind_ok done
    cases done
    obtain ⟨first, given, listed⟩ := given.obey obeyed
    obtain ⟨later, given, others⟩ := ih given followed
    refine ⟨first ++ later, by rwa [← List.append_assoc], ?_⟩
    rw [List.map_append, listed, others, ordersAll, obeyed]

/-- What becomes of the order to start a child under an external id that is free. Nothing at all if
anybody has named the child before, be it another tenant, or under an id that was taken; otherwise it
comes to a run. A child never comes to more than one run. -/
theorem child_started (given : Given past c.store)
    (known : c.store.workflow? tenant r.workflowName = some w) (child : r.child? = some k)
    (free : c.store.isTaken r.externalId = false) (added : c.addRequest tenant now r = .ok c') :
    past.countP (fun o => o.ran && o.names k) ≤ 1 ∧
      ((∃ o ∈ past, o.names k = true) ∧ c' = c ∨
        (∀ o ∈ past, o.names k = false) ∧
          ∃ new runs, Grows c.store c'.store new runs ∧ RunOf w r.externalId new runs) := by
  refine ⟨given.once k, ?_⟩
  rcases Creation.addRequest_named known added with ⟨⟨k', before, named⟩, same⟩ | ⟨fresh, c₁, ran, rfl⟩
  · cases child.symm.trans named
    exact Or.inl ⟨given.children.mp before, same⟩
  · refine Or.inr ⟨fun o ho => Bool.eq_false_iff.mpr fun names => ?_, ?_⟩
    · exact fresh k (given.children.mpr ⟨o, ho, names⟩) child
    · rcases Creation.addRun_grows (given.steps w (workflow?_mem known).1) ran with
        ⟨taken, _⟩ | ⟨_, new, runs, grows, run⟩
      · cases free.symm.trans taken
      · exact ⟨new, runs, { grows with children := fun _ old => List.mem_append_left _ old }, run⟩

end Given

/-- The order to start a child of the first task, under some external id. -/
def firstChild (externalId : ExternalId) : RunRequest :=
  { mailFor "ann" externalId with parentTaskId := some 1, childIndex := some 0 }

/-- Two tenants have the same workflow. -/
def childless : Store :=
  match obeyAll {} [.registerWorkflow ⟨3⟩ oneForEachUser, .registerWorkflow ⟨4⟩ oneForEachUser,
    .createPartitions ⟨0⟩] with
  | .ok (_, s) => s
  | .error _ => {}

/-- The first has run it, and has then ordered the child under the id of that run. -/
def childOrdered : Creation :=
  match childless.triggerRuns {} ⟨0⟩ ⟨3⟩ [mailFor "ann" ⟨7⟩, firstChild ⟨7⟩] with
  | .ok c => c
  | .error _ => { store := {}, ids := {} }

theorem childless_given : Given [] childless := by
  have done : obeyAll {} [.registerWorkflow ⟨3⟩ oneForEachUser, .registerWorkflow ⟨4⟩ oneForEachUser,
    .createPartitions ⟨0⟩] = .ok ([], childless) := rfl
  obtain ⟨later, given, none⟩ := (Given.empty 3).all done
  have none : later.map (fun o => (o.tenant, o.request)) = [] := none
  rwa [List.map_eq_nil_iff.mp none] at given

def childOrders : List Order := [⟨⟨3⟩, mailFor "ann" ⟨7⟩, true⟩, ⟨⟨3⟩, firstChild ⟨7⟩, false⟩]

theorem childOrdered_given : Given childOrders childOrdered.store := by
  have ran := Given.order (c := ⟨childless, {}, [], []⟩) (r := mailFor "ann" ⟨7⟩) childless_given
    (show childless.workflow? ⟨3⟩ "mail" = some _ from rfl)
    (show Creation.addRequest _ ⟨3⟩ ⟨0⟩ _ = .ok _ from rfl)
  exact Given.order (r := firstChild ⟨7⟩) ran
    (show Store.workflow? _ ⟨3⟩ "mail" = some _ from rfl)
    (show Creation.addRequest _ ⟨3⟩ ⟨0⟩ _ = .ok _ from rfl)

/-- The child has not been started, and is not for either of the tenants from then on. -/
theorem childOrdered_never_started :
    (∀ o ∈ childOrders, o.ran = true → o.request.child? = none) ∧
      childOrdered.store.isTaken ⟨8⟩ = false ∧
      ∀ tenant ∈ [⟨3⟩, ⟨4⟩], ∃ w c', childOrdered.store.workflow? tenant "mail" = some w ∧
        childOrdered.addRequest tenant ⟨0⟩ (firstChild ⟨8⟩) = .ok c' ∧ c' = childOrdered := by
  have named : ∃ o ∈ childOrders, o.names ⟨1, 0, none⟩ = true := by decide
  have passed (tenant : TenantId) {w c'} (known : childOrdered.store.workflow? tenant "mail" = some w)
      (added : childOrdered.addRequest tenant ⟨0⟩ (firstChild ⟨8⟩) = .ok c') : c' = childOrdered := by
    rcases (childOrdered_given.child_started known rfl rfl added).2 with ⟨-, same⟩ | ⟨fresh, -⟩
    · exact same
    · obtain ⟨o, ho, names⟩ := named
      cases names.symm.trans (fresh o ho)
  refine ⟨by decide, rfl, fun tenant member => ?_⟩
  simp only [List.mem_cons, List.not_mem_nil, or_false] at member
  rcases member with rfl | rfl
  · exact ⟨_, _, rfl, rfl, passed ⟨3⟩ rfl rfl⟩
  · exact ⟨_, _, rfl, rfl, passed ⟨4⟩ rfl rfl⟩

end WorkflowEngine
