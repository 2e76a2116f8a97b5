import WorkflowEngine.Host.Control
import WorkflowEngine.Proofs.Bus.Shutdown

/-!
The consumers of a host. A turn of a consumer that writes its batches down is a series of steps of a
consumer at work: it takes one message in, hands over what it holds at a tick, or ends when it is stopped.
-/

namespace WorkflowEngine

namespace Consuming

variable {s s' s'' : Consuming} {x : ConsumingStep}

/-- The consumer gets there by steps of its own. -/
def Leads (s s' : Consuming) : Prop :=
  ∃ steps : List ConsumingStep, (∀ x ∈ steps, x.Fits) ∧ s' = s.run steps

theorem Leads.refl (s : Consuming) : Leads s s := ⟨[], List.forall_mem_nil _, rfl⟩

theorem Leads.trans (first : Leads s s') (second : Leads s' s'') : Leads s s'' := by
  obtain ⟨steps, fits, rfl⟩ := first
  obtain ⟨more, fits', rfl⟩ := second
  exact ⟨steps ++ more, List.forall_mem_append.mpr ⟨fits, fits'⟩, List.foldl_append.symm⟩

theorem Leads.step (s : Consuming) (x : ConsumingStep) (fits : x.Fits) : Leads s (s.step x) :=
  ⟨[x], List.forall_mem_singleton.mpr fits, rfl⟩

theorem Leads.me (leads : Leads s s') : s'.me = s.me := by
  obtain ⟨steps, -, rfl⟩ := leads
  exact List.foldlRecOn (motive := fun s' : Consuming => s'.me = s.me) steps _ rfl
    fun s' same x _ => (s'.step_me x).trans same

end Consuming

namespace Host

open Consuming

variable {h : Host} {id : ConsumerId} {s : Consuming} {phase : ConsumerPhase} {calls : List Batch}
  {returning : List Message} {b : Batch} {x : Consumption} {m : Message} {l : LoopId}

/-- The consumer of the host is the one at work. -/
structure Serves (h : Host) (id : ConsumerId) (s : Consuming) (phase : ConsumerPhase)
    (calls : List Batch) (returning : List Message) : Prop where
  bus : h.engine.bus = s.traffic.bus
  here : ∃ x failures, h.consumers[id]? = some x ∧ x.handler = .recorder failures ∧
    x.consumer = s.consumer ∧ x.subscriber = s.me ∧ x.cancelled = s.cancelled
  phase : s.phase = phase
  calls : s.calls = calls
  returning : s.returning = returning

theorem Serves.congr {h' : Host} (serves : h.Serves id s phase calls returning)
    (bus : h'.engine.bus = h.engine.bus) (consumers : h'.consumers = h.consumers) :
    h'.Serves id s phase calls returning :=
  ⟨bus.trans serves.bus, consumers ▸ serves.here, serves.phase, serves.calls, serves.returning⟩

theorem wake_aside (h : Host) (p : Process) :
    (h.wake p).engine = h.engine ∧ (h.wake p).consumers = h.consumers := by
  unfold wake
  split <;> exact ⟨rfl, rfl⟩

theorem arm_aside (h : Host) (l : LoopId) (moment : Nat) :
    (h.arm l moment).engine = h.engine ∧ (h.arm l moment).consumers = h.consumers := by
  unfold arm
  split <;> exact ⟨rfl, rfl⟩

/-- The host where a subscriber has received what is next in its inbox. -/
def receiveNext (h : Host) (n : Nat) : Host :=
  { h with engine := { h.engine with bus := (h.engine.bus.receive n).2 } }

theorem consumers_modify (here : h.consumers[id]? = some x) (f : Consumption → Consumption) :
    (h.modifyConsumer id f).consumers[id]? = some (f x) := by
  simp [modifyConsumer, here]

def resend (q : QueueName) (h : Host) (m : Message) : Host :=
  match m.redelivery? with
  | none => h
  | some m' => (h.act (·.send q m')).2

theorem Serves.giveBack (serves : h.Serves id s phase calls (m :: returning)) :
    (resend s.consumer.queue h m).Serves id (s.step (.giveBack 0)) phase calls returning ∧
      (s.step (.giveBack 0)).consumer = s.consumer := by
  have first : s.returning[0]? = some m := by
    rw [serves.returning]
    rfl
  have rest : s.returning.eraseIdx 0 = returning := by
    rw [serves.returning]
    rfl
  simp only [Consuming.step, first, rest, Consuming.sendAgain, resend]
  cases m.redelivery? with
  | none => exact ⟨⟨serves.bus, serves.here, serves.phase, serves.calls, rfl⟩, rfl⟩
  | some m' =>
    have sent : ((h.act (·.send s.consumer.queue m')).2).engine.bus =
        (s.traffic.step (.send s.consumer.queue m')).bus := by
      rw [Traffic.step, ← serves.bus]
      rfl
    dsimp only
    split
    all_goals exact ⟨⟨sent, serves.here, serves.phase, serves.calls, rfl⟩, rfl⟩

theorem Serves.giveBackAll (serves : h.Serves id s phase calls returning) :
    ∃ s', Leads s s' ∧
      (returning.foldl (resend s.consumer.queue) h).Serves id s' phase calls [] := by
  induction returning generalizing h s with
  | nil => exact ⟨s, .refl s, serves⟩
  | cons m rest ih =>
    obtain ⟨serves', same⟩ := serves.giveBack
    obtain ⟨s', leads, done⟩ := ih serves'
    rw [same] at done
    exact ⟨s', (Leads.step s (.giveBack 0) trivial).trans leads, done⟩

theorem redeliveries_foldl (b : Batch) (q : QueueName) (h : Host) :
    b.redeliveries.foldl (fun h m => (h.act (·.send q m)).2) h = b.messages.foldl (resend q) h := by
  rw [Batch.redeliveries, List.foldl_filterMap]
  refine List.foldl_ext _ _ h fun h m _ => ?_
  unfold resend
  cases m.redelivery? <;> rfl

/-- A batch is handed over, and what could not be handled is sent again. -/
theorem Serves.deliver (serves : h.Serves id s phase (b :: calls) []) :
    ∃ s', Leads s s' ∧ (h.deliverBatch id b).Serves id s' phase calls [] := by
  obtain ⟨x, failures, here, handler, consumer, subscriber, cancelled⟩ := serves.here
  have first : s.calls[0]? = some b := by
    rw [serves.calls]
    rfl
  have rest : s.calls.eraseIdx 0 = calls := by
    rw [serves.calls]
    rfl
  let h' := h.modifyConsumer id fun x =>
    { x with record := x.record ++ [⟨h.elapsed, b⟩], calls := x.calls + 1 }
  have here' : ∃ x failures, h'.consumers[id]? = some x ∧ x.handler = .recorder failures ∧
      x.consumer = s.consumer ∧ x.subscriber = s.me ∧ x.cancelled = s.cancelled :=
    ⟨_, failures, consumers_modify here _, handler, consumer, subscriber, cancelled⟩
  unfold deliverBatch handOver
  simp only [here, handler]
  by_cases fails : (failures[x.calls]?).getD false = true
  · have serves' : h'.Serves id (s.step (.finish 0 false)) phase calls b.messages := by
      simp only [Consuming.step, first, rest, Consuming.finish]
      exact ⟨serves.bus, here', serves.phase, rfl, by simp [serves.returning]⟩
    obtain ⟨s', leads, done⟩ := serves'.giveBackAll
    have queue : (s.step (.finish 0 false)).consumer = s.consumer := by
      simp only [Consuming.step, first, Consuming.finish]
      rfl
    rw [queue, ← consumer] at done
    simp only [fails, if_true, redeliveries_foldl]
    exact ⟨s', (Leads.step s (.finish 0 false) trivial).trans leads, done⟩
  · simp only [fails]
    refine ⟨_, Leads.step s (.finish 0 true) trivial, ?_⟩
    simp only [Consuming.step, first, rest, Consuming.finish]
    exact ⟨serves.bus, here', serves.phase, rfl, serves.returning⟩

theorem Serves.deliverAll {batches : List Batch} (serves : h.Serves id s phase batches []) :
    ∃ s', Leads s s' ∧
      (batches.foldl (fun h b => h.deliverBatch id b) h).Serves id s' phase [] [] := by
  induction batches generalizing h s with
  | nil => exact ⟨s, .refl s, serves⟩
  | cons b rest ih =>
    obtain ⟨s₁, first, serves'⟩ := serves.deliver
    obtain ⟨s', leads, done⟩ := ih serves'
    exact ⟨s', first.trans leads, done⟩

theorem Serves.flush (serves : h.Serves id s phase [] []) (phase' : ConsumerPhase) :
    ∃ s', Leads (s.flush phase') s' ∧ (h.flushConsumer id).Serves id s' phase' [] [] := by
  obtain ⟨x, failures, here, handler, consumer, subscriber, cancelled⟩ := serves.here
  unfold flushConsumer
  simp only [here]
  exact Serves.deliverAll ⟨serves.bus,
    ⟨_, failures, consumers_modify here _, handler, by rw [consumer]; rfl, subscriber, cancelled⟩, rfl,
    by rw [Consuming.flush, serves.calls, consumer]; rfl, serves.returning⟩

theorem Serves.idle (serves : h.Serves id s phase [] []) :
    (s.calls.isEmpty && s.returning.isEmpty) = true := by
  rw [serves.calls, serves.returning]
  rfl

theorem Serves.proceed (serves : h.Serves id s .busy [] []) :
    h.Serves id (s.step .proceed) .waiting [] [] := by
  simp only [Consuming.step, serves.idle, serves.phase, if_true]
  exact ⟨serves.bus, serves.here, rfl, serves.calls, serves.returning⟩

theorem Serves.end (serves : h.Serves id s .closing [] []) (number : x.subscriber = s.me) (l : LoopId) :
    (h.endConsumer l x).Serves id (s.step .proceed) .ended [] [] := by
  simp only [Consuming.step, serves.idle, serves.phase, if_true]
  refine ⟨?_, serves.here, rfl, serves.calls, serves.returning⟩
  change h.engine.bus.unsubscribe x.subscriber = s.traffic.bus.unsubscribe s.me
  rw [serves.bus, number]

/-- A message is taken in, and its batch is handed over if that is large enough. -/
theorem Serves.takeMessage (serves : h.Serves id s .waiting [] []) (here : h.consumers[id]? = some x)
    (next : (h.engine.bus.receive x.subscriber).1 = some m) :
    ∃ s', Leads s s' ∧ ((h.receiveNext x.subscriber).takeMessage id x m).Serves id s' .waiting [] [] := by
  obtain ⟨x', failures, here', handler, consumer, subscriber, cancelled⟩ := serves.here
  cases here.symm.trans here'
  rw [serves.bus, subscriber] at next
  have received : (h.receiveNext x.subscriber).engine.bus = (s.traffic.step (.receive s.me)).bus := by
    rw [receiveNext, serves.bus, subscriber]
    rfl
  have leads := Leads.step s .receive trivial
  simp only [Consuming.step, serves.phase, next, Consuming.take, if_true] at leads
  have here' := consumers_modify (h := h.receiveNext x.subscriber) here
    fun x => { x with consumer := (s.consumer.receive m).2 }
  unfold Host.takeMessage
  rw [consumer]
  dsimp only
  cases full : (s.consumer.receive m).1 with
  | none =>
    simp only [full] at leads
    exact ⟨_, leads, received, ⟨_, failures, here', handler, rfl, subscriber, cancelled⟩, rfl,
      (List.append_nil _).trans serves.calls, serves.returning⟩
  | some b =>
    simp only [full] at leads
    have called : s.calls ++ [b] = [b] := congrArg (· ++ [b]) serves.calls
    have taken : Serves ((h.receiveNext x.subscriber).modifyConsumer id fun x =>
          { x with consumer := (s.consumer.receive m).2 }) id
        { s with
          traffic := s.traffic.step (.receive s.me)
          consumer := (s.consumer.receive m).2
          calls := s.calls ++ [b]
          phase := .busy } .busy [b] [] :=
      ⟨received, ⟨_, failures, here', handler, rfl, subscriber, cancelled⟩, rfl, called,
        serves.returning⟩
    obtain ⟨s₁, delivers, serves'⟩ := taken.deliver
    exact ⟨_, leads.trans (delivers.trans (Leads.step s₁ .proceed trivial)), serves'.proceed⟩

/-- In a turn of its loop a consumer takes some steps, and then it waits again or has ended. -/
theorem turnConsumer_leads (serves : h.Serves id s .waiting [] []) (l : LoopId) (t : Ticker) :
    ∃ s' phase, Leads s s' ∧ (h.turnConsumer l (.ticking t) id).Serves id s' phase [] [] ∧
      (phase = .waiting ∨ phase = .ended) := by
  obtain ⟨x, failures, here, handler, consumer, subscriber, cancelled⟩ := serves.here
  unfold turnConsumer
  simp only [here]
  -- the order to stop comes first, then a tick that is due, then a message
  split
  · rename_i stopped
    rw [consumerStopped, handler] at stopped
    have step : s.step .stop = s.flush .closing := by
      simp [Consuming.step, serves.phase, ← cancelled, stopped]
    obtain ⟨s', leads, flushed⟩ := serves.flush .closing
    have leads' := ((Leads.step s .stop trivial).trans (step ▸ leads)).trans
      (Leads.step s' .proceed trivial)
    have number : x.subscriber = s'.me := subscriber.trans (Leads.me leads).symm
    exact ⟨_, .ended, leads', flushed.end number l, Or.inr rfl⟩
  split
  · have step : s.step .tick = s.flush .busy := by
      simp [Consuming.step, serves.phase]
    have ticked : Serves (h.setLoop l (.ticking (t.advance h.elapsed))) id s .waiting [] [] :=
      serves.congr rfl rfl
    obtain ⟨s', leads, flushed⟩ := ticked.flush .busy
    have leads' := ((Leads.step s .tick trivial).trans (step ▸ leads)).trans
      (Leads.step s' .proceed trivial)
    exact ⟨_, .waiting, leads', flushed.proceed.congr rfl rfl, Or.inl rfl⟩
  · simp only [act]
    cases next : (h.engine.bus.receive x.subscriber).1 with
    | none =>
      have leads := Leads.step s .receive trivial
      have next' := next
      rw [serves.bus, subscriber] at next'
      simp only [Consuming.step, serves.phase, next', if_true] at leads
      obtain ⟨engine, consumers⟩ := (h.receiveNext x.subscriber).arm_aside l t.next
      have received : (h.receiveNext x.subscriber).Serves id
          { s with traffic := s.traffic.step (.receive s.me), phase := .waiting } .waiting [] [] := by
        refine ⟨?_, serves.here, rfl, serves.calls, serves.returning⟩
        rw [Traffic.step, ← serves.bus, ← subscriber]
        rfl
      exact ⟨_, .waiting, leads, received.congr (congrArg Engine.bus engine) consumers, Or.inl rfl⟩
    | some m =>
      obtain ⟨s', leads, taken⟩ := serves.takeMessage here next
      exact ⟨s', .waiting, leads, taken.congr rfl rfl, Or.inl rfl⟩

/-! ### What others do -/

/-- A consumer begins to wait when it is started. -/
theorem startConsumer_serves {before : List TrafficStep} (bus : h.engine.bus = (Traffic.run {} before).bus)
    (q : QueueName) (maxBatch flushInterval : Nat) (failures : List Bool) :
    (h.startConsumer q maxBatch flushInterval (.recorder failures)).2.2.Serves h.consumers.length
      (start before q maxBatch) .waiting [] [] := by
  unfold startConsumer spawn act
  dsimp only
  rw [bus]
  let x : Consumption :=
    { consumer := { queue := q, maxBatch }, subscriber := (Traffic.run {} before).bus.nextSubscriber
      loop := h.loops.length, handler := .recorder failures, flushInterval }
  refine ⟨?_, ⟨x, failures, ?_, rfl, rfl, rfl, rfl⟩, rfl, rfl, rfl⟩
  · rw [(wake_aside _ _).1]
    rfl
  · rw [(wake_aside _ _).2]
    exact List.getElem?_concat_length

/-- The order to stop reaches the consumer. -/
theorem Serves.cancel (serves : h.Serves id s phase calls returning) :
    (h.modifyConsumer id fun x => { x with cancelled := true }).Serves id (s.step .cancel) phase calls
      returning := by
  obtain ⟨x, failures, here, handler, consumer, subscriber, -⟩ := serves.here
  exact ⟨serves.bus, ⟨_, failures, consumers_modify here _, handler, consumer, subscriber, rfl⟩,
    serves.phase, serves.calls, serves.returning⟩

/-- Others go about their business on the bus. -/
theorem Serves.others {h' : Host} {a : TrafficStep} (serves : h.Serves id s phase calls returning)
    (others : a.isOf s.me = false) (bus : h'.engine.bus = (s.traffic.step a).bus)
    (consumers : h'.consumers = h.consumers) :
    h'.Serves id (s.step (.others a)) phase calls returning := by
  simp only [Consuming.step, others]
  exact ⟨bus, consumers ▸ serves.here, serves.phase, serves.calls, serves.returning⟩

end Host

end WorkflowEngine
