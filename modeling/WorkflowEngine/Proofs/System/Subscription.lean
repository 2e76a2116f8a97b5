import WorkflowEngine.Proofs.Store.Subscription
import WorkflowEngine.Proofs.System.Faults

/-!
Events from outside that are delivered again. Every delivery of an event counts, whatever its id: it runs
each workflow of the tenant that the key of the event triggers once more. So an event that comes twice
has run a workflow twice.
-/

namespace WorkflowEngine

open Fallible Store

/-- A message about events from outside, and the moment when it comes. -/
structure Delivery where
  moment : Instant
  payloads : List ByteArray

namespace Delivery

/-- The events that can be read. -/
def events (d : Delivery) : List UserEvent :=
  (decodePayloads UserEventPayload d.payloads).map fun p => ⟨p.eventId, p.key, p.data, p.metadata⟩

theorem asked (d : Delivery) : Request.ofPayloads .userEvent d.payloads =
    .ok (.userEvents (decodePayloads UserEventPayload d.payloads)) :=
  rfl

/-- The events of those messages that come on days the store has a partition for. -/
def counted (s : Store) (ds : List Delivery) : List UserEvent :=
  (ds.filter fun d => s.partitions.contains d.moment.date).flatMap events

variable {s : Store} {d : Delivery} {ds : List Delivery}

theorem counted_here (here : s.partitions.contains d.moment.date = true) :
    counted s (d :: ds) = d.events ++ counted s ds := by
  simp only [counted, List.filter_cons, here, if_true, List.flatMap_cons]

theorem counted_absent (absent : s.partitions.contains d.moment.date = false) :
    counted s (d :: ds) = counted s ds := by
  simp only [counted, List.filter_cons, absent, Bool.false_eq_true, if_false]

end Delivery

namespace Engine

variable {e : Engine} {tenant : TenantId} {d : Delivery} {s s' : Store} {evicted : List Attempt}

/-- Handles a message about events from outside. -/
def deliver (e : Engine) (tenant : TenantId) (d : Delivery) : Engine :=
  (e.handleTasks d.moment tenant MessageKind.userEvent.name d.payloads).2

theorem deliver_sound (after : (e.deliver tenant d).store = .sound s') : ∃ s, e.store = .sound s := by
  rcases e.handleTasks_cases d.moment tenant MessageKind.userEvent.name d.payloads with
    idle | ⟨_, _, s, _, _, _, store, _⟩
  · exact ⟨s', idle.store s' after⟩
  · exact ⟨s, store⟩

theorem deliver_nothing (e : Engine) (tenant : TenantId) (none : d.events = []) :
    (e.deliver tenant d).store = e.store ∧ (e.deliver tenant d).ids = e.ids := by
  have asked := d.asked
  rw [List.map_eq_nil_iff.mp none] at asked
  simp only [deliver, handleTasks, MessageKind.parse_of_name, asked, serve]
  exact ⟨rfl, rfl⟩

section

variable (store : e.store = .sound s) (some : d.events ≠ [])
include store some

theorem deliver_triggered {c : Creation}
    (triggered : s.triggerEvents e.ids d.moment tenant d.events = .ok c) :
    (e.deliver tenant d).store = .sound c.store ∧ (e.deliver tenant d).ids = c.ids := by
  have some : (decodePayloads UserEventPayload d.payloads).isEmpty = false := by
    simpa [Delivery.events] using some
  have served : Request.serve s (e.ids.skip 0) d.moment tenant
      (.userEvents (decodePayloads UserEventPayload d.payloads)) =
        .ok (Request.ofCreation c d.moment tenant) :=
    congrArg (fun c => do return Request.ofCreation (← c) d.moment tenant) triggered
  obtain ⟨-, performed⟩ := handleTasks_served d.asked some store served
  exact ⟨performed.store, performed.ids⟩

theorem deliver_failed {f : Fault}
    (failed : s.triggerEvents e.ids d.moment tenant d.events = .error f) :
    (e.deliver tenant d).store = e.store.afterFault f ∧ (e.deliver tenant d).ids = e.ids := by
  have some : (decodePayloads UserEventPayload d.payloads).isEmpty = false := by
    simpa [Delivery.events] using some
  have served : Request.serve s (e.ids.skip 0) d.moment tenant
      (.userEvents (decodePayloads UserEventPayload d.payloads)) = .error f :=
    congrArg (fun c => do return Request.ofCreation (← c) d.moment tenant) failed
  have got : (e.store.get >>= fun s => Request.serve s (e.ids.skip 0) d.moment tenant
      (.userEvents (decodePayloads UserEventPayload d.payloads))) = .error f := by
    rw [store]
    exact served
  simp only [deliver, handleTasks, MessageKind.parse_of_name, Request.ofPayloads, serve,
    Request.isEmpty, some, Bool.false_eq_true, if_false, Request.draws, got]
  exact ⟨rfl, rfl⟩

end

/-- A message is ignored for want of a partition, or its events are handed to the store. -/
theorem deliver_cases (store : e.store = .sound s) (after : (e.deliver tenant d).store = .sound s') :
    (s.partitions.contains d.moment.date = false ∧ s' = s ∧ (e.deliver tenant d).ids = e.ids) ∨
      s.partitions.contains d.moment.date = true ∧
        ∃ c, s.triggerEvents e.ids d.moment tenant d.events = .ok c ∧ s' = c.store ∧
          (e.deliver tenant d).ids = c.ids := by
  by_cases some : d.events = []
  · obtain ⟨left, ids⟩ := e.deliver_nothing tenant some
    have same : s' = s := Guarded.sound.inj (after.symm.trans (left.trans store))
    cases here : s.partitions.contains d.moment.date with
    | false => exact Or.inl ⟨rfl, same, ids⟩
    | true =>
      refine Or.inr ⟨rfl, { store := s, ids := e.ids }, ?_, same, ids⟩
      rw [triggerEvents, requirePartition_ok.mpr here, some]
      rfl
  · cases triggered : s.triggerEvents e.ids d.moment tenant d.events with
    | ok c =>
      obtain ⟨left, ids⟩ := deliver_triggered store some triggered
      obtain ⟨_, here, -⟩ := bind_ok triggered
      exact Or.inr ⟨requirePartition_ok.mp here, c, rfl, Guarded.sound.inj (after.symm.trans left), ids⟩
    | error f =>
      obtain ⟨left, ids⟩ := deliver_failed store some triggered
      rcases triggerEvents_fault triggered with missing | ⟨-, panic⟩
      · have absent : s.partitions.contains d.moment.date = false := by
          rw [Bool.eq_false_iff]
          intro here
          cases missing.symm.trans (requirePartition_ok.mpr here)
        rw [afterFault_plain _ (requirePartition_plain missing), store] at left
        exact Or.inl ⟨absent, Guarded.sound.inj (after.symm.trans left), ids⟩
      · cases f with
        | panic => cases after.symm.trans left
        | _ => cases panic

def deliverAll (e : Engine) (tenant : TenantId) (ds : List Delivery) : Engine :=
  ds.foldl (·.deliver tenant ·) e

theorem deliverAll_ids (ds : List Delivery) (after : (e.deliverAll tenant ds).store = .sound s') :
    (∃ s, e.store = .sound s) ∧ e.ids.drawn ≤ (e.deliverAll tenant ds).ids.drawn := by
  induction ds generalizing e with
  | nil => exact ⟨⟨s', after⟩, Nat.le_refl _⟩
  | cons d rest ih =>
    obtain ⟨⟨s₁, next⟩, more⟩ := ih (e := e.deliver tenant d) after
    obtain ⟨s, store⟩ := deliver_sound next
    refine ⟨⟨s, store⟩, Nat.le_trans ?_ more⟩
    rcases deliver_cases store next with ⟨-, -, same⟩ | ⟨-, c, triggered, -, same⟩
    · rw [same]
    · rw [same]
      exact (triggerEvents_creates triggered).drawn

/-- As long as the store can be used, each delivery of an event on a day that has a partition runs every
workflow that its key triggers once. -/
theorem deliveries_run (reached : Reachable evicted s) (store : e.store = .sound s)
    (ds : List Delivery) (after : (e.deliverAll tenant ds).store = .sound s')
    (unclaimed : s.Unclaimed e.ids (e.deliverAll tenant ds).ids) (name : String) :
    s'.runsOf tenant name = s.runsOf tenant name +
      (Delivery.counted s ds).countP fun u => s.subscribes tenant name u.key := by
  induction ds generalizing e s evicted with
  | nil =>
    cases store.symm.trans after
    rfl
  | cons d rest ih =>
    obtain ⟨⟨s₁, next⟩, more⟩ := deliverAll_ids (e := e.deliver tenant d) rest after
    rcases deliver_cases store next with ⟨absent, rfl, same⟩ | ⟨here, c, triggered, rfl, same⟩
    · rw [ih reached next after (same ▸ unclaimed), Delivery.counted_absent absent]
    · have drawn : c.ids.drawn ≤ (e.deliverAll tenant (d :: rest)).ids.drawn := same ▸ more
      have ran := triggerEvents_runs reached triggered (unclaimed.upTo drawn)
      obtain ⟨new, runs, grows⟩ := ran.grows
      have reached₁ : Reachable (evicted ++ []) c.store := by
        refine reached.after (.triggerEvents e.ids d.moment tenant d.events) ?_
        rw [obey, triggered]
        rfl
      have later := ih reached₁ next after (fun k since upTo => ?_)
      · have subscribes (key : String) : c.store.subscribes tenant name key =
            s.subscribes tenant name key := by
          rw [Store.subscribes, grows.workflow?, Store.subscribes]
        simp only [subscribes] at later
        rw [later, ran.counted, Delivery.counted_here here, List.countP_append, Nat.add_assoc,
          Delivery.counted, Delivery.counted, grows.partitions]
      · -- What the rest draws was not drawn by this delivery, and nobody had it before.
        rw [same] at since
        rw [Bool.eq_false_iff]
        intro taken
        rcases ran.claimed taken with before | ⟨j, -, upTo', equal⟩
        · have free := unclaimed k (Nat.lt_of_le_of_lt (triggerEvents_creates triggered).drawn since) upTo
          cases free.symm.trans before
        · have := Identifier.generated_injective equal
          omega

end Engine

/-! ### Somebody rings once, and it is heard twice -/

namespace System

def ringing : Delivery := ⟨⟨0⟩, [Codec.toBytes ring]⟩

theorem ringing_events : ringing.events = [⟨⟨5⟩, "ring", .null, []⟩] := by
  rw [Delivery.events, ringing, ring_decoded]
  rfl

theorem act_delivery (h : System) (tenant : TenantId) (d : Delivery) :
    (h.act (.handle d.moment tenant MessageKind.userEvent.name d.payloads)).engine =
      h.engine.deliver tenant d := by
  rw [act, Engine.deliver]

theorem act_onRing (h : System) : (h.act onRing).engine = h.engine.deliver ⟨3⟩ ringing :=
  h.act_delivery ⟨3⟩ ringing

theorem deliverAll_ringing (h : System) :
    h.engine.deliverAll ⟨3⟩ [ringing, ringing] = ((h.act onRing).act onRing).engine := by
  rw [act_onRing, act_onRing, Engine.deliverAll, List.foldl_cons, List.foldl_cons, List.foldl_nil]

def rungAgain : Creation :=
  match rung.store.triggerEvents ⟨2⟩ ⟨0⟩ ⟨3⟩ [⟨⟨5⟩, "ring", .null, []⟩] with
  | .ok c => c
  | .error _ => { store := {}, ids := {} }

theorem ringing_twice_served : (door.engine.deliverAll ⟨3⟩ [ringing, ringing]).store =
      .sound rungAgain.store ∧
    (door.engine.deliverAll ⟨3⟩ [ringing, ringing]).ids = ⟨4⟩ := by
  obtain ⟨store, ids⟩ := onRing_served
  have made : rung.store.triggerEvents ⟨2⟩ ⟨0⟩ ⟨3⟩ [⟨⟨5⟩, "ring", .null, []⟩] = .ok rungAgain := rfl
  rw [deliverAll_ringing]
  refine handle_served (h := door.act onRing) (r := .userEvents [ring])
    (x := Request.ofCreation rungAgain ⟨0⟩ ⟨3⟩) store ?_ rfl ?_
  · exact congrArg (Except.ok ∘ Request.userEvents) ring_decoded
  · rw [ids]
    exact congrArg (fun c => do return Request.ofCreation (← c) ⟨0⟩ ⟨3⟩) made

/-- One event makes two visits. -/
theorem ring_visits_twice : ∃ s, (door.engine.deliverAll ⟨3⟩ [ringing, ringing]).store = .sound s ∧
    s.runsOf ⟨3⟩ "visit" = 2 := by
  obtain ⟨store, ids⟩ := ringing_twice_served
  have reached : Reachable [] doorStore :=
    (Reachable.empty 3).all [.registerWorkflow ⟨3⟩ visit, .createPartitions ⟨0⟩] rfl
  have none (id : ExternalId) : doorStore.isTaken id = false := rfl
  refine ⟨_, store, ?_⟩
  have counted : Delivery.counted doorStore [ringing, ringing] =
      [⟨⟨5⟩, "ring", .null, []⟩, ⟨⟨5⟩, "ring", .null, []⟩] := by
    have here : doorStore.partitions.contains ringing.moment.date = true := rfl
    rw [Delivery.counted_here here, Delivery.counted_here here, ringing_events]
    rfl
  rw [Engine.deliveries_run reached (e := door.engine) rfl _ store (fun _ _ _ => none _), counted]
  rfl

end System

end WorkflowEngine
