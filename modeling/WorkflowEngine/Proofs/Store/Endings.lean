import WorkflowEngine.Proofs.Store.Batches
import WorkflowEngine.Proofs.Store.Eviction

/-!
What a batch of attempts that end comes to. Every attempt that the store accepts gets into the new state,
and no other attempt does. If the batch names each attempt once, what is released is known from the store
before: the accepted attempts in their order, each with the worker that it was given to.
-/

namespace WorkflowEngine

namespace Store

variable {s s' : Store} {tenant : TenantId} {a b : Attempt} {t : Task} {state : TaskState}

theorem Ordered.accepted?_iff (ordered : s.Ordered) : s.accepted? tenant a = some t ↔
    t ∈ s.tasks ∧ t.tenantId = tenant ∧ t.attempt = a ∧ t.state.isTerminal = false := by
  constructor
  · intro found
    obtain ⟨here, owner, attempt, live⟩ := accepted?_eq_some found
    exact ⟨(mem_of_task? here).1, owner, attempt, live⟩
  · rintro ⟨ht, rfl, rfl, live⟩
    exact ordered.accepted?_eq ht live

/-- The attempt is the current one of a task in the state. -/
def InState (s : Store) (a : Attempt) (state : TaskState) : Prop :=
  ∃ t ∈ s.tasks, t.attempt = a ∧ t.state = state

/-- The attempt got into the state between the stores. -/
def Became (s s' : Store) (a : Attempt) (state : TaskState) : Prop :=
  ¬ s.InState a state ∧ s'.InState a state

theorem Ordered.not_inState (ordered : s.Ordered) (found : s.accepted? tenant a = some t)
    (terminal : state.isTerminal = true) : ¬ s.InState a state := by
  rintro ⟨u, hu, named, rfl⟩
  obtain ⟨ht, -, attempt, live⟩ := ordered.accepted?_iff.mp found
  obtain rfl := ordered.eq_of_id hu ht (congrArg Attempt.id (named.trans attempt.symm))
  cases terminal.symm.trans live

/-! ### One attempt -/

namespace Ending

variable {p : Option ReleasedTask × Store}

/-- What is released of an attempt is its task as it was. -/
theorem released (ending : Ending s tenant a state p) :
    p.1.toList.map (fun t => (t.attempt, t.workerId)) =
      ((s.accepted? tenant a).map fun t => (a, t.workerId)).toList := by
  cases ending with
  | passed absent => rw [absent]; rfl
  | @ended t found schedule =>
    have named : t.attempt = a := (accepted?_eq_some found).2.2.1
    rw [found, ← named]
    rfl

/-- Only what was accepted before can be accepted again. -/
theorem accepted_before (ending : Ending s tenant a state p) (live : (p.2.accepted? tenant a).isSome) :
    (s.accepted? tenant a).isSome := by
  cases ending with
  | passed => exact live
  | ended found => exact Option.isSome_of_eq_some found

section

variable (ordered : s.Ordered) (ending : Ending s tenant a state p) (terminal : state.isTerminal = true)
include ordered ending terminal

/-- The end of an attempt is not the end of another. -/
theorem accepted?_other (ordered' : p.2.Ordered) (other : b ≠ a) :
    p.2.accepted? tenant b = s.accepted? tenant b := by
  cases ending with
  | passed => rfl
  | @ended t found schedule =>
    obtain ⟨ht, -, named, -⟩ := ordered.accepted?_iff.mp found
    refine Option.ext fun u => ?_
    rw [ordered'.accepted?_iff, ordered.accepted?_iff]
    constructor
    · rintro ⟨hu, owner, attempt, live⟩
      rcases mem_setTask.mp hu with ⟨rfl, -⟩ | ⟨old, -⟩
      · cases terminal.symm.trans live
      · exact ⟨old, owner, attempt, live⟩
    · rintro ⟨hu, owner, attempt, live⟩
      refine ⟨mem_setTask.mpr (Or.inr ⟨hu, fun same => ?_⟩), owner, attempt, live⟩
      obtain rfl := ordered.eq_of_id hu ht same
      exact other (attempt.symm.trans named)

theorem inState : p.2.InState b state ↔
    s.InState b state ∨ (b = a ∧ (s.accepted? tenant a).isSome) := by
  cases ending with
  | passed absent => simp [absent]
  | @ended t found schedule =>
    obtain ⟨ht, -, named, live⟩ := ordered.accepted?_iff.mp found
    rw [found]
    constructor
    · rintro ⟨u, hu, attempt, same⟩
      rcases mem_setTask.mp hu with ⟨rfl, -⟩ | ⟨old, -⟩
      · exact Or.inr ⟨attempt.symm.trans named, rfl⟩
      · exact Or.inl ⟨u, old, attempt, same⟩
    · rintro (⟨u, hu, attempt, rfl⟩ | ⟨rfl, -⟩)
      · -- A task that is in the state already is not the one that ends now.
        refine ⟨u, mem_setTask.mpr (Or.inr ⟨hu, fun same => ?_⟩), attempt, rfl⟩
        obtain rfl := ordered.eq_of_id hu ht same
        cases terminal.symm.trans live
      · exact ⟨closed t state schedule, mem_setTask.mpr (Or.inl ⟨rfl, t, ht, rfl⟩), named, rfl⟩

end

end Ending

/-! ### A batch -/

section

variable {one : Store → Attempt → Option ReleasedTask × Store} {as : List Attempt}
  (endings : ∀ s a, Ending s tenant a state (one s a)) (terminal : state.isTerminal = true) (sound : s.Sound)
include endings terminal sound

theorem endEach_released (distinct : as.Nodup) :
    (s.endEach one as).1.map (fun t => (t.attempt, t.workerId)) =
      as.filterMap fun a => (s.accepted? tenant a).map fun t => (a, t.workerId) := by
  induction as generalizing s with
  | nil => rfl
  | cons a rest ih =>
    obtain ⟨absent, distinct⟩ := List.nodup_cons.mp distinct
    have sound' := ((endings s a).quiet terminal).sound sound
    -- The first attempt is none of the rest, which are accepted behind it as they were before.
    have same : ∀ b ∈ rest, (one s a).2.accepted? tenant b = s.accepted? tenant b := fun b hb =>
      (endings s a).accepted?_other sound.ordered terminal sound'.ordered fun named => absent (named ▸ hb)
    have first := (endings s a).released
    have later : rest.filterMap (fun b => ((one s a).2.accepted? tenant b).map fun t => (b, t.workerId)) =
        rest.filterMap fun b => (s.accepted? tenant b).map fun t => (b, t.workerId) :=
      List.filterMap_congr fun b hb => by rw [same b hb]
    rw [endEach, List.map_append, first, ih sound' distinct, later, List.filterMap_cons]
    cases s.accepted? tenant a <;> rfl

theorem endEach_inState : (s.endEach one as).2.InState b state ↔
    s.InState b state ∨ (b ∈ as ∧ (s.accepted? tenant b).isSome) := by
  induction as generalizing s with
  | nil => simp [endEach]
  | cons a rest ih =>
    have sound' := ((endings s a).quiet terminal).sound sound
    rw [endEach, ih sound', (endings s a).inState sound.ordered terminal, List.mem_cons]
    by_cases here : b = a
    · subst here
      constructor
      · rintro ((before | ⟨-, live⟩) | ⟨-, live⟩)
        · exact Or.inl before
        · exact Or.inr ⟨Or.inl rfl, live⟩
        · exact Or.inr ⟨Or.inl rfl, (endings s b).accepted_before live⟩
      · rintro (before | ⟨-, live⟩)
        · exact Or.inl (Or.inl before)
        · exact Or.inl (Or.inr ⟨rfl, live⟩)
    · rw [(endings s a).accepted?_other sound.ordered terminal sound'.ordered here]
      simp [here]

/-- The attempts that get into the state are those of the batch that the store accepts. -/
theorem endEach_became : s.Became (s.endEach one as).2 a state ↔
    a ∈ as ∧ (s.accepted? tenant a).isSome := by
  rw [Became, endEach_inState endings terminal sound]
  constructor
  · rintro ⟨before, after⟩
    exact after.resolve_left before
  · rintro ⟨listed, live⟩
    obtain ⟨t, found⟩ := Option.isSome_iff_exists.mp live
    exact ⟨sound.ordered.not_inState found terminal, Or.inr ⟨listed, live⟩⟩

end

theorem cancel_released (sound : s.Sound) {as : List Attempt} (distinct : as.Nodup) :
    (s.cancel tenant as).1.map (fun t => (t.attempt, t.workerId)) =
      as.filterMap fun a => (s.accepted? tenant a).map fun t => (a, t.workerId) := by
  rw [cancel_eq]
  exact endEach_released (fun s a => s.cancelOne_ending tenant a) rfl sound distinct

theorem cancel_releases (sound : s.Sound) {as : List Attempt} (distinct : as.Nodup) {id : Option WorkerId} :
    (∃ t ∈ (s.cancel tenant as).1, (t.attempt, t.workerId) = (a, id)) ↔
      a ∈ as ∧ ∃ t, s.accepted? tenant a = some t ∧ t.workerId = id := by
  rw [← List.mem_map, cancel_released sound distinct, List.mem_filterMap]
  constructor
  · rintro ⟨b, hb, found⟩
    obtain ⟨t, accepted, same⟩ := Option.map_eq_some_iff.mp found
    obtain ⟨rfl, given⟩ := Prod.mk.inj same
    exact ⟨hb, t, accepted, given⟩
  · rintro ⟨ha, t, accepted, rfl⟩
    exact ⟨a, ha, by rw [accepted, Option.map_some]⟩

/-- Nothing is released twice. -/
theorem cancel_distinct (sound : s.Sound) {as : List Attempt} (distinct : as.Nodup) :
    (s.cancel tenant as).1.Pairwise fun t u => t.attempt ≠ u.attempt := by
  have pairs : ((s.cancel tenant as).1.map fun t => (t.attempt, t.workerId)).Pairwise
      fun x y => x.1 ≠ y.1 := by
    rw [cancel_released sound distinct]
    refine List.Pairwise.filterMap _ (fun a b other x hx y hy => ?_) distinct
    obtain ⟨t, -, rfl⟩ := Option.map_eq_some_iff.mp hx
    obtain ⟨u, -, rfl⟩ := Option.map_eq_some_iff.mp hy
    exact other
  exact (List.pairwise_map (R := fun x y : Attempt × Option WorkerId => x.1 ≠ y.1)).mp pairs

/-- The attempt can still end: it is the current one of a task of the tenant that goes on. -/
def Live (s : Store) (tenant : TenantId) (a : Attempt) : Prop :=
  ∃ t ∈ s.tasks, t.tenantId = tenant ∧ t.attempt = a ∧ t.state.isTerminal = false

theorem Ordered.live_iff (ordered : s.Ordered) :
    s.Live tenant a ↔ (s.accepted? tenant a).isSome := by
  rw [Option.isSome_iff_exists]
  exact exists_congr fun t => ordered.accepted?_iff.symm

/-- The attempts that get cancelled are those of the batch that can still end. -/
theorem cancel_became (sound : s.Sound) {as : List Attempt} :
    s.Became (s.cancel tenant as).2 a .cancelled ↔ a ∈ as ∧ s.Live tenant a := by
  rw [cancel_eq, sound.ordered.live_iff]
  exact endEach_became (fun s a => s.cancelOne_ending tenant a) rfl sound

end Store

end WorkflowEngine
