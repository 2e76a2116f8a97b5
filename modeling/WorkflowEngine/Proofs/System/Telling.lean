import WorkflowEngine.Engine.Supervision
import WorkflowEngine.Engine.Tasks
import WorkflowEngine.Proofs.System.Announcement

/-!
What the engine publishes. Whatever it does to its store is told by the notices that it sends to the
read model, and nothing else is sent there.
-/

namespace WorkflowEngine

open Fallible Store

theorem MessageKind.parse_name {text : String} {kind : MessageKind} (h : parse text = .ok kind) :
    text = kind.name := by
  unfold parse at h
  split at h
  · rename_i found
    cases h
    have named := List.find?_some found
    exact (beq_iff_eq.mp named).symm
  · cases h

theorem MessageKind.parse_of_name (kind : MessageKind) : parse kind.name = .ok kind := by
  cases kind <;> rfl

/-! ### Access -/

namespace Guarded

variable {σ α : Type} {g : Guarded σ} {s' : σ}

theorem get_sound {s : σ} (h : g.get = .ok s) : g = .sound s := by
  cases g with
  | poisoned => cases h
  | sound s' =>
    cases h
    rfl

theorem afterFault_sound {f : Fault} (h : g.afterFault f = .sound s') : g = .sound s' := by
  unfold afterFault at h
  split at h
  · cases h
  · exact h

/-- Behind a write the state is what it was, or what the write made of it. -/
theorem write_sound {op : σ → Except Fault (α × σ)} (h : (g.write op).2 = .sound s') :
    ∃ s, g = .sound s ∧ (s' = s ∨ ∃ a, op s = .ok (a, s')) := by
  cases g with
  | poisoned => cases h
  | sound s =>
    refine ⟨s, rfl, ?_⟩
    simp only [write] at h
    split at h
    · rename_i done
      cases h
      exact Or.inr ⟨_, done⟩
    · cases afterFault_sound h
      exact Or.inl rfl

end Guarded

/-! ### What is posted -/

namespace Engine

variable {e e' e'' : Engine} {ms ms' : List Message} {record : QueueName}

/-- The read model is as it was, and these messages were sent to the queue. -/
structure Posted (record : QueueName) (e e' : Engine) (ms : List Message) : Prop where
  settings : e'.settings = e.settings
  readModel : e'.readModel = e.readModel
  cache : e'.cache = e.cache
  blocked : e'.bus.blocked = e.bus.blocked
  mail : e'.bus.published record = e.bus.published record ++
    if e.bus.isBlocked record.text then [] else ms

theorem Posted.nothing (settings : e'.settings = e.settings) (readModel : e'.readModel = e.readModel)
    (cache : e'.cache = e.cache) (bus : e'.bus = e.bus) : Posted record e e' [] :=
  ⟨settings, readModel, cache, by rw [bus], by rw [bus, ite_self, List.append_nil]⟩

theorem Posted.trans (first : Posted record e e' ms) (second : Posted record e' e'' ms') :
    Posted record e e'' (ms ++ ms') := by
  have same : e'.bus.isBlocked record.text = e.bus.isBlocked record.text := by
    rw [Bus.isBlocked, first.blocked, Bus.isBlocked]
  refine ⟨second.settings.trans first.settings, second.readModel.trans first.readModel,
    second.cache.trans first.cache, second.blocked.trans first.blocked, ?_⟩
  rw [second.mail, first.mail, same, List.append_assoc]
  split <;> rfl

theorem Posted.published (posted : Posted record e e' ms) (free : e.bus.blocked = []) :
    e'.bus.published record = e.bus.published record ++ ms := by
  have accepted : e.bus.isBlocked record.text = false := by
    rw [Bus.isBlocked, free]
    rfl
  rw [posted.mail, accepted]
  rfl

theorem send_posted (e : Engine) (record q : QueueName) (m : Message) :
    Posted record e (e.send q m).2 (if q.text = record.text then [m] else []) ∧
      (e.send q m).2.store = e.store :=
  ⟨⟨rfl, rfl, rfl, e.bus.send_blocked q m, e.bus.send_published q m record⟩, rfl⟩

theorem postAll_posted (e : Engine) (record : QueueName) (ps : List Posting) :
    Posted record e (e.postAll ps).2 (Posting.mail record ps) ∧ (e.postAll ps).2.store = e.store := by
  induction ps generalizing e with
  | nil => exact ⟨.nothing rfl rfl rfl rfl, rfl⟩
  | cons p rest ih =>
    have first : Posted record e (e.post p).2 (Posting.mail record [p]) ∧
        (e.post p).2.store = e.store := by
      cases p with
      | error f => exact ⟨.nothing rfl rfl rfl rfl, rfl⟩
      | ok x =>
        have mail : Posting.mail record [.ok x] =
            if x.queue.text = record.text then [x.message] else [] := by
          by_cases here : x.queue.text = record.text <;> simp [Posting.mail, Posting.to?, here]
        rw [mail]
        exact send_posted e record x.queue x.message
    obtain ⟨posted, same⟩ := first
    obtain ⟨posted', same'⟩ := ih (e.post p).2
    have mail : Posting.mail record (p :: rest) = Posting.mail record [p] ++ Posting.mail record rest :=
      Posting.mail_append [p] rest
    exact ⟨mail ▸ posted.trans posted', same'.trans same⟩

/-- What comes of an effect that is carried out. -/
structure Performed (e e' : Engine) (x : Effect) : Prop where
  store : e'.store = .sound x.store
  ids : e'.ids = x.ids
  posted : ∀ record, Posted record e e' (Posting.mail record x.postings)

theorem postAll_ids (e : Engine) (ps : List Posting) : (e.postAll ps).2.ids = e.ids := by
  induction ps generalizing e with
  | nil => rfl
  | cons p rest ih => exact (ih _).trans (by cases p <;> rfl)

theorem perform_performed (e : Engine) (cause : String) (x : Effect) :
    Performed e (e.perform cause x) x := by
  let taken : Engine :=
    { e with store := .sound x.store, ids := x.ids, metrics := e.metrics.addAll x.counts }
  refine ⟨(taken.postAll_posted .tasks x.postings).2, taken.postAll_ids x.postings, fun record => ?_⟩
  obtain ⟨posted, -⟩ := taken.postAll_posted record x.postings
  exact ⟨posted.settings, posted.readModel, posted.cache, posted.blocked, posted.mail⟩

/-- Nothing was done, and the store is as it was unless it cannot be used any more. -/
structure Idle (e e' : Engine) : Prop where
  settings : e'.settings = e.settings
  readModel : e'.readModel = e.readModel
  cache : e'.cache = e.cache
  bus : e'.bus = e.bus
  store : ∀ s, e'.store = .sound s → e.store = .sound s

theorem recovered_ok (e : Engine) (context : String) : e.recovered context (.ok ()) = (.ok (), e) := by
  simp only [recovered, Work.ofExcept, Work.recover, List.append_nil]

section

variable {now : Instant} {tenant : TenantId} {kind : MessageKind} {payloads : List ByteArray}
  {r : Request} {s : Store} {x : Effect}
  (asked : Request.ofPayloads kind payloads = .ok r) (some : r.isEmpty = false)
  (store : e.store = .sound s) (served : Request.serve s (e.ids.skip r.draws) now tenant r = .ok x)
include asked some store served

theorem handleTasks_eq : e.handleTasks now tenant kind.name payloads =
    (.ok (), (e.perform kind.name x).countHandled kind (.ok ())) := by
  have got : (e.store.get >>= fun s => Request.serve s (e.ids.skip r.draws) now tenant r) = .ok x := by
    rw [store]
    exact served
  have done : e.serve now tenant kind.name r = (.ok (), e.perform kind.name x) := by
    simp only [serve, some, got]
    rfl
  simp only [handleTasks, kind.parse_of_name, asked, done, recovered_ok]

theorem handleTasks_served : (e.handleTasks now tenant kind.name payloads).1 = .ok () ∧
    Performed e (e.handleTasks now tenant kind.name payloads).2 x := by
  obtain ⟨stored, ids, posted⟩ := perform_performed e kind.name x
  rw [handleTasks_eq asked some store served]
  exact ⟨rfl, stored, ids, fun record => ⟨(posted record).settings, (posted record).readModel,
    (posted record).cache, (posted record).blocked, (posted record).mail⟩⟩

end

/-- A message comes to nothing, or the request that it makes is served. -/
theorem handleTasks_cases (e : Engine) (now : Instant) (tenant : TenantId) (kindName : String)
    (payloads : List ByteArray) :
    Idle e (e.handleTasks now tenant kindName payloads).2 ∨ ∃ kind r s x, kindName = kind.name ∧
      Request.ofPayloads kind payloads = .ok r ∧ e.store = .sound s ∧
      Request.serve s (e.ids.skip r.draws) now tenant r = .ok x ∧
      Performed e (e.handleTasks now tenant kindName payloads).2 x := by
  cases parsed : MessageKind.parse kindName with
  | error f =>
    simp only [handleTasks, parsed]
    exact Or.inl ⟨rfl, rfl, rfl, rfl, fun _ => id⟩
  | ok kind =>
    obtain rfl := MessageKind.parse_name parsed
    cases asked : Request.ofPayloads kind payloads with
    | error f =>
      simp only [handleTasks, parsed, asked]
      exact Or.inl ⟨rfl, rfl, rfl, rfl, fun _ => id⟩
    | ok r =>
      cases some : r.isEmpty with
      | true =>
        simp only [handleTasks, parsed, asked, serve, some]
        exact Or.inl ⟨rfl, rfl, rfl, rfl, fun _ => id⟩
      | false =>
        cases got : e.store.get >>= fun s => Request.serve s (e.ids.skip r.draws) now tenant r with
        | error f =>
          simp only [handleTasks, parsed, asked, serve, some, got]
          exact Or.inl ⟨rfl, rfl, rfl, rfl, fun _ => Guarded.afterFault_sound⟩
        | ok x =>
          obtain ⟨s, store, served⟩ := bind_ok got
          refine Or.inr ⟨kind, r, s, x, rfl, asked, Guarded.get_sound store, served, ?_⟩
          exact (handleTasks_served asked some (Guarded.get_sound store) served).2

theorem sweepOnce_cases (e : Engine) (now : Instant) (kind : Sweep) (tenant : TenantId) :
    Idle e (e.sweepOnce now kind tenant).2 ∨ ∃ s x, e.store = .sound s ∧
      sweep kind s e.ids now tenant e.settings.sweepBatchLimit = .ok x ∧
      Performed e (e.sweepOnce now kind tenant).2 x.effect := by
  unfold sweepOnce
  split
  · rename_i x swept
    obtain ⟨s, got, swept⟩ := bind_ok swept
    exact Or.inr ⟨s, x, Guarded.get_sound got, swept, perform_performed e kind.name x.effect⟩
  · exact Or.inl ⟨rfl, rfl, rfl, rfl, fun _ => Guarded.afterFault_sound⟩

theorem orderCancellations_posted (e : Engine) (record : QueueName) (tenant : TenantId)
    (placed : List Admission.Placed) :
    Posted record e (e.orderCancellations tenant placed).2
        (if placed ≠ [] ∧ QueueName.tasks.text = record.text then
          [Message.cancelled tenant (placed.map cancellation)]
        else []) ∧
      (e.orderCancellations tenant placed).2.store = e.store := by
  unfold orderCancellations
  split
  · rename_i empty
    rw [if_neg fun both => both.1 (List.isEmpty_iff.mp empty)]
    exact ⟨.nothing rfl rfl rfl rfl, rfl⟩
  · rename_i some
    have sent := send_posted e record .tasks
      (Message.cancelled tenant (placed.map cancellation))
    have filled : placed ≠ [] := fun empty => some (by rw [empty]; rfl)
    simp only [ne_eq, filled, not_false_eq_true, true_and]
    split
    · rename_i result
      rw [result] at sent
      exact sent
    · rename_i result
      rw [result] at sent
      exact ⟨⟨sent.1.settings, sent.1.readModel, sent.1.cache, sent.1.blocked, sent.1.mail⟩, sent.2⟩

theorem announceQueued_posted (e : Engine)
    (other : ∀ partition, (QueueName.scheduler partition).text ≠ record.text) (tenant : TenantId)
    (placed : List Admission.Placed) :
    Posted record e (e.announceQueued tenant placed).2 [] ∧
      (e.announceQueued tenant placed).2.store = e.store := by
  unfold announceQueued
  split
  · exact ⟨.nothing rfl rfl rfl rfl, rfl⟩
  · split
    · exact ⟨.nothing rfl rfl rfl rfl, rfl⟩
    · rename_i postings asked
      have posted := postAll_posted e record postings
      unfold read at asked
      cases store : e.store with
      | poisoned =>
        rw [store] at asked
        cases asked
      | sound s =>
        rw [store] at asked
        cases asked
        rwa [Posting.mail_created other, store] at posted

/-- Whatever has happened to the store was announced to the read model. -/
def Tells (e e' : Engine) : Prop :=
  ∃ ns, Posted .readModel e e' (ns.map Notice.message) ∧
    ∀ s', e'.store = .sound s' → ∃ s, e.store = .sound s ∧ Announced s s' ns

theorem Tells.posted (tells : Tells e e') (posted : Posted .readModel e' e'' [])
    (store : e''.store = e'.store) :
    Tells e e'' := by
  obtain ⟨ns, first, told⟩ := tells
  refine ⟨ns, ?_, fun s' h => told s' (store ▸ h)⟩
  have both := first.trans posted
  rwa [List.append_nil] at both

section

variable (sound : ∀ s, e.store = .sound s → s.Sound)
include sound

theorem Idle.tells (idle : Idle e e') : Tells e e' := by
  refine ⟨[], .nothing idle.settings idle.readModel idle.cache idle.bus, fun s' h => ?_⟩
  exact ⟨s', idle.store s' h, .silent (sound s' (idle.store s' h)) (.same rfl rfl)⟩

theorem write_tells {α : Type} {op : Store → Except Fault (α × Store)}
    (silent : ∀ s a s', s.Sound → op s = .ok (a, s') → s'.Sound ∧ Told s s' []) :
    Tells e (e.write op).2 := by
  refine ⟨[], .nothing rfl rfl rfl rfl, ?_⟩
  intro s' h
  obtain ⟨s, was, rfl | ⟨a, done⟩⟩ := Guarded.write_sound h
  · exact ⟨s', was, .silent (sound s' was) (.same rfl rfl)⟩
  · obtain ⟨sound', told⟩ := silent s a s' (sound s was) done
    exact ⟨s, was, .silent sound' told⟩

theorem Performed.tells {s : Store} {x : Effect} (done : Performed e e' x) (store : e.store = .sound s)
    (announces : s.Sound → Announces s x) : Tells e e' := by
  obtain ⟨ns, mail, announced⟩ := announces (sound s store)
  refine ⟨ns, mail ▸ done.posted .readModel, ?_⟩
  intro s' h
  cases done.store.symm.trans h
  exact ⟨s, store, announced⟩

/-! ### Requests and sweeps -/

theorem handleTasks_tells {now : Instant} {tenant : TenantId} {kindName : String}
    {payloads : List ByteArray} (moment : Instant.inRange now.nanos = true)
    (plain : kindName = MessageKind.taskCancelled.name →
      ∀ p ∈ decodePayloads CancelledPayload payloads, p.eventType = .cancelled) :
    Tells e (e.handleTasks now tenant kindName payloads).2 := by
  rcases e.handleTasks_cases now tenant kindName payloads with
    idle | ⟨kind, r, s, x, rfl, asked, store, served, done⟩
  · exact idle.tells sound
  · have plain : r.Plain := by
      cases kind with
      | taskCancelled =>
        cases asked
        exact plain rfl
      | taskCompleted | taskFailed | userEvent | internalEvent | taskTrigger =>
        cases asked
        trivial
      | createdTask | createdDag | createMonitoringEvent | notifyTaskCreated | notifyTaskReleased =>
        cases asked
    exact done.tells sound store fun sound => serve_announces sound moment plain served

theorem sweepOnce_tells {now : Instant} {kind : Sweep} {tenant : TenantId}
    (moment : Instant.inRange now.nanos = true) : Tells e (e.sweepOnce now kind tenant).2 := by
  rcases e.sweepOnce_cases now kind tenant with idle | ⟨s, x, store, swept, done⟩
  · exact idle.tells sound
  · exact done.tells sound store fun sound => sweep_announces sound moment swept

end

end Engine

end WorkflowEngine
