import WorkflowEngine.Proofs.Store.Redelivery
import WorkflowEngine.Proofs.System.Faults

/-!
Messages that are delivered again. A request that was served is settled: served again at any time it
changes nothing and announces nothing. So a message that was handled with success may come again without
harm. Events from outside are no such requests, and neither are failures of attempts that are yet to come.
-/

namespace WorkflowEngine

open Fallible Store

namespace Request

variable {s : Store} {ids : IdSource} {now later : Instant} {tenant : TenantId} {day : Date}
  {r : Request} {x : Effect} {evicted : List Attempt}

/-- To serve the request changes nothing and announces nothing. It may fail for want of a partition, but
not on the given day. -/
def Settled (s : Store) (tenant : TenantId) (day : Date) (r : Request) : Prop :=
  ∀ ids now, (∃ y, serve s ids now tenant r = .ok y ∧ y.store = s ∧ y.postings = []) ∨
    ∃ f, serve s ids now tenant r = .error f ∧ f.isPanic = false ∧ now.date ≠ day

/-- The request may come again: it is not about events from outside, and about no attempt that is newer
than the one its task has come to. -/
def Repeatable (s : Store) (tenant : TenantId) : Request → Prop
  | userEvents _ => False
  | fail ps => ∀ p ∈ ps, s.HasComeTo tenant p.attempt
  | _ => True

/-- The external ids of the tasks whose outcomes the request announces. -/
def heard : Request → List ExternalId
  | internalEvents ps => announcedIds (ps.map fun p => ⟨p.timestamp, p.key, p.data⟩)
  | _ => []

theorem requirePartition_date (s : Store) (same : now.date = later.date) :
    s.requirePartition later = s.requirePartition now := by
  rw [requirePartition, requirePartition, same]

theorem ofCreation_map (x : Except Fault Creation) (now : Instant) (tenant : TenantId) :
    (do return ofCreation (← x) now tenant) = (ofCreation · now tenant) <$> x := by
  cases x <;> rfl

/-- What creates nothing as long as there is a partition is settled. -/
theorem settled_of_creation {create : IdSource → Instant → Except Fault Creation}
    (served : ∀ ids now, serve s ids now tenant r = (ofCreation · now tenant) <$> create ids now)
    (nothing : ∀ ids now, create ids now =
      (fun _ => { store := s, ids := ids }) <$> s.requirePartition now)
    (here : s.requirePartition later = .ok ()) : r.Settled s tenant later.date := by
  intro ids now
  rw [served, nothing]
  cases required : s.requirePartition now with
  | ok _ => exact Or.inl ⟨_, rfl, rfl, rfl⟩
  | error f =>
    refine Or.inr ⟨f, rfl, requirePartition_plain required, fun same => ?_⟩
    rw [requirePartition_date s same.symm, here] at required
    cases required

theorem serve_settled (reached : Reachable evicted s) (repeatable : r.Repeatable s tenant)
    (unnamed : ∀ k, ids.drawn < k → k ≤ x.ids.drawn → .generated k ∉ r.heard)
    (h : serve s ids now tenant r = .ok x) : r.Settled x.store tenant now.date := by
  have sound := reached.sound
  cases r with
  | complete ps =>
    cases h
    intro ids' later
    refine Or.inl ⟨_, rfl, ?_⟩
    simp only [serveComplete, complete_repeated sound, true_and]
    rfl
  | cancel ps =>
    cases h
    intro ids' later
    refine Or.inl ⟨_, rfl, ?_⟩
    simp only [serveCancel, cancel_repeated sound, true_and]
    rfl
  | fail ps =>
    obtain ⟨⟨result, s₁, postings, counts⟩, announced, h⟩ := bind_ok h
    cases h
    obtain ⟨⟨result', s₂⟩, failed, announced⟩ := bind_ok announced
    cases announced
    intro ids' later
    have current : ∀ f ∈ ps.map fun p => Failure.mk p.attempt p.isAppError p.errorMessage,
        s.HasComeTo tenant f.task := List.forall_mem_map.mpr repeatable
    have again := fail_repeated sound current failed later
    have served : serve s₁ ids' later tenant (fail ps) =
        .ok ⟨s₁, ids', [], [(.transitions .failed, 0), (.transitions .queued, 0)]⟩ := by
      simp only [serve, serveFail, failAndAnnounce, again]
      rfl
    exact Or.inl ⟨_, served, rfl, rfl⟩
  | trigger ps =>
    obtain ⟨c, triggered, h⟩ := bind_ok h
    cases h
    obtain ⟨⟨new, runs, grows⟩, again⟩ := triggerRuns_repeated reached.steps triggered
    obtain ⟨_, here, -⟩ := bind_ok triggered
    exact settled_of_creation (fun ids now => ofCreation_map _ now tenant)
      (fun ids now => again now ids) (grows.requirePartition.trans here)
  | internalEvents ps =>
    obtain ⟨c, matched, h⟩ := bind_ok h
    cases h
    obtain ⟨⟨new, grows⟩, again⟩ := matchOutcomes_repeated reached.waiting_ordered unnamed matched
    obtain ⟨_, here, -⟩ := bind_ok matched
    exact settled_of_creation (fun ids now => ofCreation_map _ now tenant)
      (fun ids now => again now ids) (grows.requirePartition.trans here)
  | userEvents ps => exact repeatable.elim

end Request

namespace Engine

variable {e e' : Engine} {now later : Instant} {tenant : TenantId} {kind : MessageKind}
  {payloads : List ByteArray} {r : Request} {s : Store} {y : Effect} {day : Date}
  {evicted : List Attempt}

theorem handleTasks_silent (asked : Request.ofPayloads kind payloads = .ok r)
    (some : r.isEmpty = false) (store : e.store = .sound s)
    (served : Request.serve s (e.ids.skip r.draws) now tenant r = .ok y) (same : y.store = s)
    (silent : y.postings = []) :
    (e.handleTasks now tenant kind.name payloads).1 = .ok () ∧
      (e.handleTasks now tenant kind.name payloads).2.store = e.store ∧
      (e.handleTasks now tenant kind.name payloads).2.bus = e.bus := by
  obtain ⟨result, performed⟩ := handleTasks_served asked some store served
  refine ⟨result, performed.store.trans (same ▸ store.symm), ?_⟩
  have got : (e.store.get >>= fun s => Request.serve s (e.ids.skip r.draws) now tenant r) = .ok y := by
    rw [store]
    exact served
  simp only [handleTasks, kind.parse_of_name, asked, serve, some, Bool.false_eq_true, if_false, got,
    perform, silent]
  rfl

theorem handleTasks_settled (asked : Request.ofPayloads kind payloads = .ok r)
    (store : e.store = .sound s) (settled : r.Settled s tenant day) (later : Instant) :
    (e.handleTasks later tenant kind.name payloads).2.store = e.store ∧
      (e.handleTasks later tenant kind.name payloads).2.bus = e.bus ∧
      (later.date = day → (e.handleTasks later tenant kind.name payloads).1 = .ok ()) := by
  cases some : r.isEmpty with
  | true =>
    simp only [handleTasks, kind.parse_of_name, asked, serve, some, if_true]
    exact ⟨rfl, rfl, fun _ => rfl⟩
  | false =>
    rcases settled (e.ids.skip r.draws) later with ⟨y, served, same, silent⟩ | ⟨f, failed, plain, other⟩
    · obtain ⟨result, unchanged, quiet⟩ := handleTasks_silent asked some store served same silent
      exact ⟨unchanged, quiet, fun _ => result⟩
    · have got : (e.store.get >>= fun s => Request.serve s (e.ids.skip r.draws) later tenant r) =
          .error f := by
        rw [store]
        exact failed
      have refused : e.serve later tenant kind.name r =
          (.error f, { e with ids := e.ids.skip r.draws }) := by
        simp only [serve, some, Bool.false_eq_true, if_false, got, afterFault_plain _ plain]
      simp only [handleTasks, kind.parse_of_name, asked, refused, recovered_plain _ _ plain]
      exact ⟨rfl, rfl, fun same => absurd same other⟩

/-- A message that was handled may be delivered again at any time: the store stays as it is and nothing
is published, as long as the tasks that were created did not get external ids of tasks whose outcomes the
message announces. -/
theorem redelivery_idempotent (reached : Reachable evicted s) (store : e.store = .sound s)
    (asked : Request.ofPayloads kind payloads = .ok r) (repeatable : r.Repeatable s tenant)
    (handled : e.handleTasks now tenant kind.name payloads = (.ok (), e'))
    (fresh : ∀ k, e.ids.drawn < k → k ≤ e'.ids.drawn → .generated k ∉ r.heard) (later : Instant) :
    (e'.handleTasks later tenant kind.name payloads).2.store = e'.store ∧
      (e'.handleTasks later tenant kind.name payloads).2.bus = e'.bus ∧
      (later.date = now.date → (e'.handleTasks later tenant kind.name payloads).1 = .ok ()) := by
  cases some : r.isEmpty with
  | true =>
    simp only [handleTasks, kind.parse_of_name, asked, serve, some, if_true]
    exact ⟨rfl, rfl, fun _ => rfl⟩
  | false =>
    cases served : Request.serve s (e.ids.skip r.draws) now tenant r with
    | error f =>
      have got : (e.store.get >>= fun s => Request.serve s (e.ids.skip r.draws) now tenant r) =
          .error f := by
        rw [store]
        exact served
      have result := congrArg Prod.fst handled
      simp only [handleTasks, kind.parse_of_name, asked, serve, some, Bool.false_eq_true, if_false, got,
        recovered_outcome] at result
      cases result
    | ok x =>
      obtain ⟨-, performed⟩ := handleTasks_served asked some store served
      rw [handled] at performed
      have settled : r.Settled x.store tenant now.date := by
        refine Request.serve_settled reached repeatable (fun k since upTo => ?_) served
        refine fresh k (Nat.lt_of_le_of_lt (Nat.le_add_right _ _) since) ?_
        exact performed.ids ▸ upTo
      exact handleTasks_settled asked performed.store settled later

end Engine

/-! ### An announcement that comes twice -/

namespace System

theorem openDoorStore_reachable : Reachable [] openDoorStore :=
  (Reachable.empty 3).all [.registerWorkflow ⟨3⟩ visit, .createPartitions ⟨0⟩,
    .triggerEvents {} ⟨0⟩ ⟨3⟩ [⟨⟨5⟩, "ring", .null, []⟩], .complete ⟨3⟩ [sent.attempt]] rfl

theorem opening_asked : Request.ofPayloads .internalEvent [Codec.toBytes opening] =
    .ok (.internalEvents [opening]) :=
  congrArg (Except.ok ∘ Request.internalEvents) opening_decoded

theorem opening_heard : Request.heard (.internalEvents [opening]) = [.generated 2] := by
  have read : Outcome.ofKey? opening.key = some (.completed, (Identifier.generated 2).asRead) :=
    Outcome.ofKey?_key .completed (.generated 2)
  simp only [Request.heard, announcedIds, List.map_cons, List.map_nil, List.filterMap_cons, read,
    List.filterMap_nil, Option.map_some]
  rfl

/-- The engine is told that the door has been opened. -/
def tellOpening (e : Engine) : Except Fault Unit × Engine :=
  e.handleTasks ⟨0⟩ ⟨3⟩ MessageKind.internalEvent.name [Codec.toBytes opening]

theorem tellOpening_served : ∃ e, tellOpening ((door.act onRing).act onOpen).engine = (.ok (), e) ∧
    e.store = .sound greeted.store := by
  have made : openDoorStore.matchOutcomes ⟨3⟩ ⟨0⟩ ⟨3⟩ [⟨⟨0⟩, opening.key, opening.data⟩] =
    .ok greeted := rfl
  have served : Request.serve openDoorStore (((door.act onRing).act onOpen).engine.ids.skip 1) ⟨0⟩ ⟨3⟩
      (.internalEvents [opening]) = .ok (Request.ofCreation greeted ⟨0⟩ ⟨3⟩) := by
    rw [onOpen_served.2]
    exact congrArg (fun c => do return Request.ofCreation (← c) ⟨0⟩ ⟨3⟩) made
  have told := Engine.handleTasks_served opening_asked rfl onOpen_served.1 served
  unfold tellOpening
  -- the handler's answer is named: nothing below is to evaluate it
  generalize Engine.handleTasks _ _ _ _ _ = answer at told ⊢
  obtain ⟨result, e⟩ := answer
  obtain ⟨rfl, performed⟩ := told
  exact ⟨e, rfl, performed.store⟩

/-- It is told so twice, and one guest is greeted once. -/
theorem opening_delivered_twice :
    ∃ e, tellOpening ((door.act onRing).act onOpen).engine = (.ok (), e) ∧
      e.store = .sound greeted.store ∧ (tellOpening e).1 = .ok () ∧
        (tellOpening e).2.store = e.store ∧ (tellOpening e).2.bus = e.bus := by
  obtain ⟨e, handled, stored⟩ := tellOpening_served
  unfold tellOpening at handled ⊢
  have fresh : ∀ k, ((door.act onRing).act onOpen).engine.ids.drawn < k → k ≤ e.ids.drawn →
      .generated k ∉ Request.heard (.internalEvents [opening]) := by
    intro k since _ named
    rw [onOpen_served.2] at since
    rw [opening_heard, List.mem_singleton] at named
    have same := Identifier.generated_injective named
    change 2 < k at since
    omega
  obtain ⟨store, bus, again⟩ := Engine.redelivery_idempotent openDoorStore_reachable onOpen_served.1
    opening_asked trivial handled fresh ⟨0⟩
  exact ⟨e, handled, stored, again rfl, store, bus⟩

end System

end WorkflowEngine
