import Mathlib.Data.List.Perm.Basic
import WorkflowEngine.Proofs.Bus.Batching
import WorkflowEngine.Proofs.Bus.Traffic

/-!
A batching consumer on a bus with traffic of all kinds. The consumer takes messages in, hands batches
over and sends again what could not be handled; at some time it is stopped, hands over what is left, and
ends. The messages of its queue are followed to the end: which were handled, which were dropped, which
others have, and which are lost, since they lay in the inbox of the consumer when it ended.
-/

namespace WorkflowEngine

namespace Message

/-- What a message says, however often it may still be delivered. -/
def content (m : Message) : Message := m.withRetries 0

/-- How many of the messages are such by what they say. -/
def tally (such : Message → Bool) (ms : List Message) : Nat := (ms.map content).countP such

variable {such : Message → Bool} {m m' : Message} {ms ms' : List Message} {i : Nat}

@[simp] theorem tally_nil : tally such [] = 0 := rfl

@[simp] theorem tally_append : tally such (ms ++ ms') = tally such ms + tally such ms' := by
  rw [tally, List.map_append, List.countP_append]
  rfl

@[simp] theorem tally_cons : tally such (m :: ms) = (such m.content).toNat + tally such ms := by
  rw [tally, List.map_cons, List.countP_cons, Nat.add_comm]
  cases such m.content <;> rfl

theorem tally_perm (such : Message → Bool) (perm : ms.Perm ms') : tally such ms = tally such ms' :=
  (perm.map content).countP_eq such

theorem tally_eraseIdx (such : Message → Bool) (here : ms[i]? = some m) :
    tally such ms = (such m.content).toNat + tally such (ms.eraseIdx i) := by
  obtain ⟨bound, rfl⟩ := List.getElem?_eq_some_iff.mp here
  exact (tally_perm such (List.getElem_cons_eraseIdx_perm bound).symm).trans tally_cons

theorem content_of_again (again : m.redelivery? = some m') : m'.content = m.content := by
  unfold redelivery? at again
  split at again
  · cases again
  · cases again
    rfl

theorem perm_of_tally (same : ∀ such, tally such ms = tally such ms') :
    (ms.map content).Perm (ms'.map content) := by
  classical
  exact List.perm_iff_count.mpr fun m => same (· == m)

end Message

open Message Batch

/-! ### The traffic of others -/

/-- Steps that a subscriber does itself. -/
def TrafficStep.isOf (id : Nat) : TrafficStep → Bool
  | .receive other | .close other => other == id
  | _ => false

namespace TrafficLog

variable {l : TrafficLog} {q : QueueName} {id : Nat}

/-- What the queue has handed to other subscribers. -/
def sentToOthers (l : TrafficLog) (q : QueueName) (id : Nat) : List Message :=
  (l.posted.filter fun p => p.queue = q ∧ p.fate ≠ .waiting ∧ p.fate ≠ .expired ∧
    p.fate ≠ .handed id).map (·.message)

theorem tally_sentTo (such : Message → Bool) (l : TrafficLog) (q : QueueName) (id : Nat) :
    tally such (l.sentTo q) = tally such (l.sentWith q .waiting) + tally such (l.sentWith q .expired) +
      tally such (l.sentWith q (.handed id)) + tally such (l.sentToOthers q id) := by
  unfold sentTo sentWith sentToOthers
  induction l.posted with
  | nil => rfl
  | cons p rest ih =>
    obtain ⟨r, m, listened, fate⟩ := p
    by_cases here : r = q
    · cases fate with
      | waiting | expired =>
        simp [here] at ih ⊢
        omega
      | handed other => by_cases mine : other = id <;> simp [here, mine] at ih ⊢ <;> omega
    · simpa [here] using ih

end TrafficLog

namespace Traffic

variable {t : Traffic} {q : QueueName} {a : TrafficStep} {id : Nat}

/-- The messages that a queue accepts in a step. -/
def accepted (t : Traffic) (q : QueueName) : TrafficStep → List Message
  | .send r m => if r = q ∧ t.bus.isBlocked r.text = false then [m] else []
  | _ => []

theorem sentTo_step (t : Traffic) (q : QueueName) (a : TrafficStep) :
    (t.step a).log.sentTo q = t.log.sentTo q ++ t.accepted q a := by
  cases a with
  | send r m =>
    simp only [step, accepted]
    cases t.bus.isBlocked r.text <;> simp [TrafficLog.sentTo_post]
  | subscribe r => exact TrafficLog.sentTo_enrol.trans (List.append_nil _).symm
  | receive | close | block | turn => exact (List.append_nil _).symm

theorem gotBy_step (others : a.isOf id = false) : (t.step a).log.gotBy id = t.log.gotBy id := by
  cases a with
  | send r m =>
    simp only [step]
    split <;> rfl
  | subscribe | block | turn => rfl
  | receive other | close other =>
    have apart : id ≠ other := fun same => by simp [TrafficStep.isOf, same] at others
    simp [step, TrafficLog.gotBy_note, apart]

/-- Nobody comes back who has left. -/
theorem Sound.left_step (sound : t.Sound) (fits : q.Fits) (fits' : a.Fits)
    (known : id < t.log.homes.length) (left : (t.bus.queueOf q).Left id) :
    ((t.step a).bus.queueOf q).Left id := by
  cases a with
  | send r m =>
    simp only [step, Bus.send]
    split
    · exact left
    · have keeps (k : Queue) : (k.accept m).name = k.name := (k.accept_record m).1
      rw [Bus.queueOf_update keeps fits' fits]
      split
      · rename_i same
        exact same ▸ left.accept m
      · exact left
  | subscribe r =>
    have keeps (k : Queue) : (k.subscribe t.bus.nextSubscriber).name = k.name := rfl
    change ((t.bus.update r.text (·.subscribe t.bus.nextSubscriber)).queueOf q).Left id
    rw [Bus.queueOf_update keeps fits' fits]
    split
    · rename_i same
      exact same ▸ left.subscribe (by rw [← sound.numbered]; exact Nat.ne_of_gt known)
    · exact left
  | receive other =>
    simp only [step, Bus.receive_eq]
    rw [Bus.queueOf_updateSubscriber]
    exact Queue.Left.updateSubscriber (f := fun x => { x with inbox := x.inbox.tail }) (fun _ => rfl) left
      fun _ opened => opened
  | close other =>
    simp only [step, Bus.unsubscribe]
    rw [Bus.queueOf_updateSubscriber]
    exact Queue.Left.updateSubscriber (f := fun x => { x with isOpen := false, inbox := [] })
      (fun _ => rfl) left fun _ opened => by cases opened
  | block leads => exact left
  | turn r turn =>
    have keeps (k : Queue) : ({ k with turn } : Queue).name = k.name := rfl
    simp only [step]
    rw [Bus.queueOf_update keeps fits' fits]
    split
    · rename_i same
      exact same ▸ left
    · exact left

end Traffic

/-! ### A consumer at work -/

inductive ConsumerPhase where
  /-- It waits for messages, for the next tick, and for the order to stop. -/
  | waiting
  | busy
  /-- It was stopped, and hands over what is left. -/
  | closing
  | ended
  deriving DecidableEq, Repr

structure Consuming where
  traffic : Traffic
  consumer : Consumer
  /-- The number of its subscription. -/
  me : Nat
  phase : ConsumerPhase := .waiting
  cancelled : Bool := false
  calls : List Batch := []
  returning : List Message := []
  /-- The messages sent to the queue, except for those that the consumer has sent again. -/
  sent : List Message
  handled : List Message := []
  /-- What could not be handled and has no retry left. -/
  dropped : List Message := []
  returned : List Message := []
  /-- What should have been sent again when sends to the queue were refused. -/
  refused : List Message := []
  /-- What lay in the inbox at the end. -/
  lost : List Message := []

inductive ConsumingStep where
  | others (a : TrafficStep)
  | receive
  | tick
  | cancel
  | stop
  /-- One of the batches has been handled, or could not be. -/
  | finish (n : Nat) (ok : Bool)
  /-- One of the messages that could not be handled is sent again, or dropped. -/
  | giveBack (n : Nat)
  /-- Nothing is left to do, and so the consumer waits again, or ends. -/
  | proceed

def ConsumingStep.Fits : ConsumingStep → Prop
  | .others a => a.Fits
  | _ => True

namespace Consuming

def flush (s : Consuming) (phase : ConsumerPhase) : Consuming :=
  { s with phase, consumer := s.consumer.flush.2, calls := s.calls ++ s.consumer.flush.1 }

def take (s : Consuming) (m : Message) : Consuming :=
  let (full, consumer) := s.consumer.receive m
  { s with consumer, calls := s.calls ++ full.toList, phase := if full.isSome then .busy else .waiting }

/-- Sends a message again, if it has a retry left. -/
def sendAgain (s : Consuming) (m : Message) : Consuming :=
  match m.redelivery? with
  | none => { s with dropped := s.dropped ++ [m] }
  | some m' =>
    let s' := { s with traffic := s.traffic.step (.send s.consumer.queue m') }
    if s.traffic.bus.isBlocked s.consumer.queue.text then { s' with refused := s.refused ++ [m] }
    else { s' with returned := s.returned ++ [m] }

def finish (s : Consuming) (b : Batch) (ok : Bool) : Consuming :=
  if ok then { s with handled := s.handled ++ b.messages }
  else { s with returning := s.returning ++ b.messages }

/-- Does a step, if it is one that can be done now. -/
def step (s : Consuming) : ConsumingStep → Consuming
  | .others a =>
    if a.isOf s.me then s
    else { s with
      traffic := s.traffic.step a
      sent := s.sent ++ s.traffic.accepted s.consumer.queue a }
  | .receive =>
    if s.phase = .waiting then
      let s' := { s with traffic := s.traffic.step (.receive s.me) }
      match (s.traffic.bus.receive s.me).1 with
      | none => s'
      | some m => s'.take m
    else s
  | .tick => if s.phase = .waiting then s.flush .busy else s
  | .cancel => { s with cancelled := true }
  | .stop => if s.phase = .waiting ∧ s.cancelled then s.flush .closing else s
  | .finish n ok =>
    match s.calls[n]? with
    | none => s
    | some b => { s with calls := s.calls.eraseIdx n }.finish b ok
  | .giveBack n =>
    match s.returning[n]? with
    | none => s
    | some m => { s with returning := s.returning.eraseIdx n }.sendAgain m
  | .proceed =>
    if s.calls.isEmpty && s.returning.isEmpty then
      match s.phase with
      | .busy => { s with phase := .waiting }
      | .closing =>
        { s with
          phase := .ended
          traffic := s.traffic.step (.close s.me)
          lost := s.lost ++ s.traffic.bus.inbox s.me }
      | .waiting | .ended => s
    else s

def run (s : Consuming) (steps : List ConsumingStep) : Consuming := steps.foldl step s

/-- A consumer that subscribes to a queue after some traffic. -/
def start (before : List TrafficStep) (q : QueueName) (maxBatch : Nat) : Consuming :=
  let t := Traffic.run {} before
  { traffic := t.step (.subscribe q)
    consumer := { queue := q, maxBatch }
    me := t.bus.nextSubscriber
    sent := t.log.sentTo q }

variable {s : Consuming} {q : QueueName} {m : Message} {b : Batch}

theorem step_me (s : Consuming) (x : ConsumingStep) : (s.step x).me = s.me := by
  cases x with
  | giveBack n =>
    simp only [step, sendAgain]
    repeat' split
    all_goals rfl
  | _ =>
    simp only [step, finish]
    repeat' split
    all_goals rfl

/-- What has become of the messages that the consumer was handed. -/
def custody (s : Consuming) : List Message :=
  s.consumer.held ++ all s.calls ++ s.returning ++ s.handled ++ s.dropped ++ s.returned ++ s.refused ++
    s.lost

/-- What the queue accepted was sent to it or sent again, and what the consumer was handed and has not
received yet is all that it does not account for. -/
structure Sound (s : Consuming) : Prop where
  traffic : s.traffic.Sound
  home : s.traffic.log.homes[s.me]? = some s.consumer.queue
  keyed : s.consumer.Keyed
  sent : ∀ such, tally such (s.traffic.log.sentTo s.consumer.queue) = tally such (s.sent ++ s.returned)
  taken : ∀ such, tally such (s.traffic.log.gotBy s.me) = tally such s.custody
  dropped : ∀ m ∈ s.dropped, m.retries = 0
  spared : s.phase ≠ .ended → s.lost = []
  lost : s.lost <:+ s.traffic.log.gotBy s.me
  stopped : s.phase = .closing ∨ s.phase = .ended → s.consumer.batches = []
  ended : s.phase = .ended → s.calls = [] ∧ s.returning = [] ∧
    (s.traffic.bus.queueOf s.consumer.queue).Left s.me

theorem Sound.others (sound : s.Sound) {a : TrafficStep} (fits : a.Fits) : (s.step (.others a)).Sound := by
  simp only [step]
  split
  · exact sound
  · rename_i others
    have queue := sound.traffic.orderly.fits _ (List.mem_of_getElem? sound.home)
    have known := (List.getElem?_eq_some_iff.mp sound.home).1
    exact {
      traffic := Traffic.step_sound sound.traffic fits
      home := ((sound.traffic.later a).homes _ _ sound.home).1
      keyed := sound.keyed
      sent such := by
        have before := sound.sent such
        simp only [Traffic.sentTo_step, tally_append] at before ⊢
        omega
      taken such := by
        rw [Traffic.gotBy_step (Bool.eq_false_iff.mpr others)]
        exact sound.taken such
      dropped := sound.dropped
      spared := sound.spared
      lost := by
        rw [Traffic.gotBy_step (Bool.eq_false_iff.mpr others)]
        exact sound.lost
      stopped := sound.stopped
      ended last := by
        obtain ⟨calls, returning, left⟩ := sound.ended last
        exact ⟨calls, returning, sound.traffic.left_step queue fits known left⟩ }

theorem Sound.flush (sound : s.Sound) {phase : ConsumerPhase} (waits : s.phase = .waiting)
    (goes : phase ≠ .ended) : (s.flush phase).Sound where
  traffic := sound.traffic
  home := sound.home
  keyed := List.nodup_nil
  sent := sound.sent
  taken such := by
    have before := sound.taken such
    simp only [custody, Consuming.flush, Consumer.flush, Consumer.held, all_nil, all_append, tally_nil,
      tally_append] at before ⊢
    omega
  dropped := sound.dropped
  spared _ := sound.spared (by simp [waits])
  lost := sound.lost
  stopped _ := rfl
  ended last := absurd last goes

theorem Sound.take (sound : s.Sound) (waits : s.phase = .waiting)
    (next : (s.traffic.bus.receive s.me).1 = some m) :
    ({ s with traffic := s.traffic.step (.receive s.me) }.take m).Sound := by
  obtain ⟨keyed, queue, perm⟩ := Consumer.receive_held sound.keyed m
  have goes (full : Option Batch) : (if full.isSome then ConsumerPhase.busy else .waiting) ≠ .closing ∧
      (if full.isSome then ConsumerPhase.busy else .waiting) ≠ .ended := by
    cases full <;> exact ⟨nofun, nofun⟩
  have spared := sound.spared (by simp [waits])
  exact {
    traffic := Traffic.step_sound (a := .receive s.me) sound.traffic trivial
    home := by
      rw [Consuming.take, queue]
      exact sound.home
    keyed
    sent such := by
      rw [Consuming.take, queue]
      exact sound.sent such
    taken such := by
      have before := sound.taken such
      have same := tally_perm such perm
      simp only [custody, Consuming.take, Traffic.step, TrafficLog.gotBy_note, next, if_true,
        Option.toList_some, tally_append, tally_cons, tally_nil, all_append] at same before ⊢
      omega
    dropped := sound.dropped
    spared _ := spared
    lost := by
      rw [Consuming.take, spared]
      exact List.nil_suffix
    stopped last := (last.elim (goes _).1 (goes _).2).elim
    ended last := absurd last (goes _).2 }

theorem Sound.finish (sound : s.Sound) {n : Nat} (here : s.calls[n]? = some b) (ok : Bool) :
    ({ s with calls := s.calls.eraseIdx n }.finish b ok).Sound := by
  have working : s.phase ≠ .ended := fun last => by
    rw [(sound.ended last).1] at here
    cases here
  have split (such : Message → Bool) :
      tally such (all s.calls) = tally such b.messages + tally such (all (s.calls.eraseIdx n)) := by
    obtain ⟨bound, rfl⟩ := List.getElem?_eq_some_iff.mp here
    have perm := (List.getElem_cons_eraseIdx_perm bound).flatMap_right (·.messages)
    exact (tally_perm such perm.symm).trans tally_append
  unfold Consuming.finish
  split
  all_goals exact { sound with
    taken such := by
      have before := sound.taken such
      have moved := split such
      simp only [custody, tally_append] at before ⊢
      omega
    ended last := absurd last working }

theorem Sound.sendAgain (sound : s.Sound) {n : Nat} (here : s.returning[n]? = some m) :
    ({ s with returning := s.returning.eraseIdx n }.sendAgain m).Sound := by
  have working : s.phase ≠ .ended := fun last => by
    rw [(sound.ended last).2.1] at here
    cases here
  have queue := sound.traffic.orderly.fits _ (List.mem_of_getElem? sound.home)
  have moved (such : Message → Bool) := tally_eraseIdx such here
  unfold Consuming.sendAgain
  -- what is sent again goes to the queue once more, maybe to the consumer itself
  split
  · rename_i spent
    exact { sound with
      taken such := by
        have before := sound.taken such
        have moved := moved such
        simp only [custody, tally_append, tally_cons, tally_nil] at before ⊢
        omega
      dropped := List.forall_mem_append.mpr
        ⟨sound.dropped, List.forall_mem_singleton.mpr (retries_of_dropped spent)⟩
      ended last := absurd last working }
  · rename_i m' again
    have traffic := Traffic.step_sound (a := .send s.consumer.queue m') sound.traffic queue
    have home := ((sound.traffic.later (.send s.consumer.queue m')).homes _ _ sound.home).1
    have got : (s.traffic.step (.send s.consumer.queue m')).log.gotBy s.me = s.traffic.log.gotBy s.me :=
      Traffic.gotBy_step rfl
    have accepted := s.traffic.sentTo_step s.consumer.queue (.send s.consumer.queue m')
    dsimp only
    split
    · rename_i refused
      exact { sound with
        traffic
        home
        sent such := by
          have before := sound.sent such
          simpa [accepted, Traffic.accepted, refused] using before
        taken such := by
          have before := sound.taken such
          have moved := moved such
          simp only [custody, got, tally_append, tally_cons, tally_nil] at before ⊢
          omega
        lost := got ▸ sound.lost
        ended last := absurd last working }
    · rename_i open_
      exact { sound with
        traffic
        home
        sent such := by
          have before := sound.sent such
          have same := content_of_again again
          simp only [tally_append] at before
          simp [accepted, Traffic.accepted, open_, same, before]
          omega
        taken such := by
          have before := sound.taken such
          have moved := moved such
          simp only [custody, got, tally_append, tally_cons, tally_nil] at before ⊢
          omega
        lost := got ▸ sound.lost
        ended last := absurd last working }

/-- Who has nothing left to do ends, and what is in the inbox is lost. -/
theorem Sound.close (sound : s.Sound) (idle : s.calls = [] ∧ s.returning = [])
    (closing : s.phase = .closing) :
    Sound { s with
      phase := .ended
      traffic := s.traffic.step (.close s.me)
      lost := s.lost ++ s.traffic.bus.inbox s.me } where
  traffic := Traffic.step_sound (a := .close s.me) sound.traffic trivial
  home := sound.home
  keyed := sound.keyed
  sent := sound.sent
  taken such := by
    have before := sound.taken such
    simp only [custody, Traffic.step, TrafficLog.gotBy_note, if_true, tally_append] at before ⊢
    omega
  dropped := sound.dropped
  spared last := absurd rfl last
  lost := by
    rw [sound.spared (by simp [closing])]
    simp [Traffic.step, TrafficLog.gotBy_note]
  stopped _ := sound.stopped (Or.inl closing)
  ended _ := by
    -- nobody is there any more to whom the queue could hand a message under this number
    refine ⟨idle.1, idle.2, ?_⟩
    simp only [Traffic.step, Bus.unsubscribe]
    rw [Bus.queueOf_updateSubscriber]
    exact Queue.left_of_closes (fun _ => rfl) fun _ => rfl

theorem step_sound {x : ConsumingStep} (sound : s.Sound) (fits : x.Fits) : (s.step x).Sound := by
  cases x with
  | others a => exact sound.others fits
  | receive =>
    simp only [step]
    split
    · rename_i waits
      split
      · rename_i none
        exact { sound with
          traffic := Traffic.step_sound (a := .receive s.me) sound.traffic trivial
          taken such := by
            have before := sound.taken such
            simpa [Traffic.step, none, TrafficLog.gotBy_note, custody] using before
          lost := by
            rw [sound.spared (by simp [waits])]
            exact List.nil_suffix
          ended last := absurd (waits.symm.trans last) nofun }
      · rename_i next
        exact sound.take waits next
    · exact sound
  | tick =>
    simp only [step]
    split
    · rename_i waits
      exact sound.flush waits (by decide)
    · exact sound
  | cancel => exact { sound with }
  | stop =>
    simp only [step]
    split
    · rename_i stops
      exact sound.flush stops.1 (by decide)
    · exact sound
  | finish n ok =>
    simp only [step]
    split
    · exact sound
    · rename_i here
      exact sound.finish here ok
  | giveBack n =>
    simp only [step]
    split
    · exact sound
    · rename_i here
      exact sound.sendAgain here
  | proceed =>
    simp only [step]
    split
    · rename_i idle
      rw [Bool.and_eq_true, List.isEmpty_iff, List.isEmpty_iff] at idle
      split
      · rename_i busy
        exact { sound with
          spared _ := sound.spared (by simp [busy])
          stopped := by simp
          ended := by simp }
      · rename_i closing
        exact sound.close idle closing
      · exact sound
      · exact sound
    · exact sound

theorem start_sound {before : List TrafficStep} (fits : ∀ a ∈ before, a.Fits) (known : q.Fits)
    (maxBatch : Nat) : (start before q maxBatch).Sound := by
  obtain ⟨sound, -⟩ := Traffic.sound_empty.run fits
  have orderly := sound.orderly
  exact {
    traffic := Traffic.step_sound (a := .subscribe q) sound known
    home := TrafficLog.homes_enrol.mpr (Or.inr ⟨sound.numbered.symm, rfl⟩)
    keyed := List.nodup_nil
    sent such := by
      simp [start, Traffic.step, TrafficLog.sentTo_enrol]
    taken such := by
      have none := orderly.gotBy_next
      rw [sound.numbered] at none
      simp [start, custody, Consumer.held, Traffic.step, none]
    dropped := List.forall_mem_nil _
    spared _ := rfl
    lost := List.nil_suffix
    stopped _ := rfl
    ended := nofun }

theorem Sound.run {steps : List ConsumingStep} (sound : s.Sound) (fits : ∀ x ∈ steps, x.Fits) :
    (s.run steps).Sound := by
  induction steps generalizing s with
  | nil => exact sound
  | cons x rest ih =>
    obtain ⟨first, others⟩ := List.forall_mem_cons.mp fits
    exact ih (step_sound sound first) others

/-! ### The end -/

/-- Where the messages are that were sent to the queue of a consumer that has ended. -/
structure Settled (s : Consuming) : Prop where
  all : (s.sent.map content).Perm
    ((s.handled ++ s.dropped ++ (s.traffic.bus.queueOf s.consumer.queue).pending ++
      s.traffic.log.sentToOthers s.consumer.queue s.me ++
      s.traffic.log.sentWith s.consumer.queue .expired ++ s.refused ++ s.lost).map content)
  /-- A message is dropped after it has failed and no retry is left. -/
  dropped : ∀ m ∈ s.dropped, m.retries = 0
  expired : ∀ m ∈ s.traffic.log.sentWith s.consumer.queue .expired, m.expires = true
  /-- What is lost was handed to the consumer itself, behind all that it has received. -/
  lost : s.lost <:+ s.traffic.log.sentWith s.consumer.queue (.handed s.me)

theorem Sound.settled (sound : s.Sound) (ended : s.phase = .ended) : s.Settled := by
  have queue := sound.traffic.orderly.fits _ (List.mem_of_getElem? sound.home)
  have agrees := sound.traffic.agrees _ queue
  obtain ⟨calls, returning, left⟩ := sound.ended ended
  have handed : s.traffic.log.gotBy s.me = s.traffic.log.sentWith s.consumer.queue (.handed s.me) := by
    rw [← agrees.history _ sound.home, agrees.sound.inboxOf_left left, List.append_nil]
  -- of what was handed to the consumer nothing is in its inbox or in its hands any more
  refine ⟨perm_of_tally fun such => ?_, sound.dropped, fun m hm => ?_, handed ▸ sound.lost⟩
  · have sent := sound.sent such
    have taken := sound.taken such
    have split := s.traffic.log.tally_sentTo such s.consumer.queue s.me
    simp only [custody, handed, calls, returning, Consumer.held, sound.stopped (Or.inr ended), all_nil,
      tally_nil, tally_append] at sent taken split ⊢
    rw [agrees.pending]
    omega
  · obtain ⟨p, hp, rfl⟩ := List.mem_map.mp hm
    obtain ⟨hp, expired⟩ := List.mem_filter.mp hp
    exact ((sound.traffic.orderly.expired p hp).mp (decide_eq_true_iff.mp expired).2).1

/-- Whatever is sent, whatever becomes of the batches and whenever a consumer is stopped: once it has ended,
each message sent to its queue has been handled, or dropped with no retry left, or waits in the queue, or
was handed to another subscriber, or expired with nobody there, or could not be sent again as the queue
refused it, or is lost with the inbox of the consumer. -/
theorem ended_settled (before : List TrafficStep) (q : QueueName) (maxBatch : Nat)
    (steps : List ConsumingStep) (known : q.Fits) (fits : ∀ a ∈ before, a.Fits)
    (fits' : ∀ x ∈ steps, x.Fits) (ended : ((start before q maxBatch).run steps).phase = .ended) :
    ((start before q maxBatch).run steps).Settled :=
  ((start_sound fits known maxBatch).run fits').settled ended

/-- The report of a task that has come to an end. -/
def completion : Message where
  kindName := MessageKind.taskCompleted.name
  payloads := []
  tenantId := ⟨1⟩
  expires := false
  persistent := false
  retries := 5

/-- A report waits in its batch when the consumer is stopped, and cannot be handled. -/
def unhandled : List ConsumingStep := [.others (.send .tasks completion), .receive, .cancel, .stop,
  .finish 0 false, .giveBack 0, .proceed]

/-- It is sent again, to the consumer itself, and so it is lost with four retries left. -/
theorem unhandled_lost : ((start [] .tasks 10).run unhandled).Settled ∧
    ((start [] .tasks 10).run unhandled).phase = .ended ∧
    ((start [] .tasks 10).run unhandled).sent = [completion] ∧
    ((start [] .tasks 10).run unhandled).lost = [completion.withRetries 4] ∧
    ((start [] .tasks 10).run unhandled).handled = [] ∧
    ((start [] .tasks 10).run unhandled).dropped = [] ∧
    (((start [] .tasks 10).run unhandled).traffic.bus.queueOf .tasks).pending = [] := by
  have fits : ∀ x ∈ unhandled, x.Fits := by
    simp [unhandled, ConsumingStep.Fits, TrafficStep.Fits, QueueName.Fits]
  refine ⟨ended_settled [] .tasks 10 unhandled trivial (List.forall_mem_nil _) fits rfl, ?_⟩
  exact ⟨rfl, rfl, rfl, rfl, rfl, rfl⟩

end Consuming

end WorkflowEngine
