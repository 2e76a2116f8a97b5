import WorkflowEngine.Proofs.System.Batches
import WorkflowEngine.Proofs.System.Publication

/-!
The engine does not show how payloads about attempts that end were put together. Whether they come in
one message or in many, its store comes to be the same, and the same is announced.
-/

namespace WorkflowEngine

open Fallible Store

/-- Whether messages of the kind are about attempts that end. -/
def MessageKind.ends : MessageKind → Bool
  | taskCompleted | taskFailed | taskCancelled => true
  | _ => false

namespace Request

variable {s : Store} {ids : IdSource} {now : Instant} {tenant : TenantId} {kind : MessageKind}
  {b c : List ByteArray} {r r₁ r₂ : Request} {x : Effect} {f : Fault}

theorem ofPayloads_cut (ends : kind.ends = true) (b c : List ByteArray) :
    ∃ r r₁ r₂, ofPayloads kind (b ++ c) = .ok r ∧ ofPayloads kind b = .ok r₁ ∧
      ofPayloads kind c = .ok r₂ ∧ Cut r r₁ r₂ := by
  have decoded {α : Type} [Codec α] : decodePayloads α (b ++ c) = decodePayloads α b ++ decodePayloads α c :=
    List.filterMap_append
  cases kind with
  | taskCompleted => exact ⟨_, _, _, congrArg (Except.ok ∘ complete) decoded, rfl, rfl, .complete _ _⟩
  | taskFailed => exact ⟨_, _, _, congrArg (Except.ok ∘ fail) decoded, rfl, rfl, .fail _ _⟩
  | taskCancelled => exact ⟨_, _, _, congrArg (Except.ok ∘ cancel) decoded, rfl, rfl, .cancel _ _⟩
  | userEvent | internalEvent | taskTrigger | createdTask | createdDag | createMonitoringEvent
  | notifyTaskCreated | notifyTaskReleased => cases ends

theorem draws_of_ends (ends : kind.ends = true) (asked : ofPayloads kind b = .ok r) : r.draws = 0 := by
  cases kind with
  | taskCompleted | taskFailed | taskCancelled =>
    cases asked
    rfl
  | userEvent | internalEvent | taskTrigger | createdTask | createdDag | createMonitoringEvent
  | notifyTaskCreated | notifyTaskReleased => cases ends

theorem serve_nothing (ends : kind.ends = true) (asked : ofPayloads kind b = .ok r)
    (empty : r.isEmpty = true) (s : Store) (ids : IdSource) (now : Instant) (tenant : TenantId) :
    ∃ x, serve s ids now tenant r = .ok x ∧ x.store = s ∧ ∀ q, Posting.announced q x.postings = [] := by
  cases kind with
  | taskCompleted =>
    cases asked
    rw [List.isEmpty_iff.mp empty]
    exact ⟨_, rfl, rfl, fun q => by simp [serveComplete, Store.complete]⟩
  | taskFailed =>
    cases asked
    rw [List.isEmpty_iff.mp empty]
    obtain ⟨x, served, stored, told⟩ := serveFail_served ids
      (show s.fail now tenant (failures []) = .ok ({}, s) from rfl)
    exact ⟨x, served, stored, fun q => List.perm_nil.mp (told (fun _ => "") q fun _ h =>
      absurd h List.not_mem_nil)⟩
  | taskCancelled =>
    cases asked
    rw [List.isEmpty_iff.mp empty]
    exact ⟨_, rfl, rfl, fun q => by simp [serveCancel, Store.cancel, Posting.stops]⟩
  | userEvent | internalEvent | taskTrigger | createdTask | createdDag | createMonitoringEvent
  | notifyTaskCreated | notifyTaskReleased => cases ends

end Request

namespace Engine

variable {e : Engine} {now : Instant} {tenant : TenantId} {kind : MessageKind} {b c : List ByteArray}
  {r : Request} {s : Store} {x : Effect}

def Panicked (result : Except Fault Unit × Engine) : Prop := ∃ text, result.1 = .error (.panic text)

/-- The store has come to be this one, and these messages were announced. -/
structure Took (e e' : Engine) (x : Effect) : Prop where
  store : e'.store = .sound x.store
  blocked : e'.bus.blocked = e.bus.blocked
  announced : ∀ q, e'.bus.announced q =
    e.bus.announced q ++ if e.bus.isBlocked q.text then [] else Posting.announced q x.postings

theorem Took.both {e e' e₁ e₂ : Engine} {x x₁ x₂ : Effect} (took : Took e e' x) (took₁ : Took e e₁ x₁)
    (took₂ : Took e₁ e₂ x₂) (both : Request.Both x x₁ x₂) (q : QueueName) :
    (e₂.bus.announced q).Perm (e'.bus.announced q) := by
  have same : e₁.bus.isBlocked q.text = e.bus.isBlocked q.text := by
    rw [Bus.isBlocked, took₁.blocked, Bus.isBlocked]
  rw [took₂.announced, took₁.announced, took.announced, same, List.append_assoc]
  refine List.Perm.append_left _ ?_
  split
  · exact .refl _
  · exact (both q).symm

theorem handleTasks_took (ends : kind.ends = true) (asked : Request.ofPayloads kind b = .ok r)
    (store : e.store = .sound s) (served : Request.serve s e.ids now tenant r = .ok x) :
    (e.handleTasks now tenant kind.name b).1 = .ok () ∧
      Took e (e.handleTasks now tenant kind.name b).2 x := by
  cases empty : r.isEmpty with
  | true =>
    obtain ⟨y, servedY, stored, silent⟩ := Request.serve_nothing ends asked empty s e.ids now tenant
    obtain rfl : y = x := Except.ok.inj (servedY.symm.trans served)
    simp only [handleTasks, kind.parse_of_name, asked, serve, empty, if_true]
    refine ⟨rfl, store.trans (by rw [stored]), rfl, fun q => ?_⟩
    rw [silent, ite_self, List.append_nil]
    rfl
  | false =>
    have skipped : e.ids.skip r.draws = e.ids := by
      rw [Request.draws_of_ends ends asked]
      rfl
    obtain ⟨result, stored, -, posted⟩ := handleTasks_served asked empty store (skipped ▸ served)
    refine ⟨result, stored, (posted .tasks).blocked, fun q => ?_⟩
    rw [Bus.announced, (posted q).mail, List.flatMap_append]
    split <;> rfl

theorem handleTasks_panicked {text : String} (ends : kind.ends = true)
    (asked : Request.ofPayloads kind b = .ok r) (store : e.store = .sound s)
    (refused : Request.serve s e.ids now tenant r = .error (.panic text)) :
    Panicked (e.handleTasks now tenant kind.name b) ∧
      (e.handleTasks now tenant kind.name b).2.store = .poisoned := by
  cases empty : r.isEmpty with
  | true =>
    obtain ⟨_, served, -⟩ := Request.serve_nothing ends asked empty s e.ids now tenant
    cases refused.symm.trans served
  | false =>
    have got : (e.store.get >>= fun s => Request.serve s (e.ids.skip r.draws) now tenant r) =
        .error (.panic text) := by
      rw [store, Request.draws_of_ends ends asked]
      exact refused
    simp only [handleTasks, kind.parse_of_name, asked, serve, empty, got]
    exact ⟨⟨text, rfl⟩, rfl⟩

theorem handleTasks_poisoned (ends : kind.ends = true) (poisoned : e.store = .poisoned) :
    ¬ Panicked (e.handleTasks now tenant kind.name b) ∧
      (e.handleTasks now tenant kind.name b).2.store = .poisoned ∧
      (e.handleTasks now tenant kind.name b).2.bus = e.bus := by
  obtain ⟨r, -, -, asked, -⟩ := Request.ofPayloads_cut ends b []
  rw [List.append_nil] at asked
  have got : (e.store.get >>= fun s => Request.serve s (e.ids.skip r.draws) now tenant r) =
      .error (.ofStorage "lock poisoned") := by
    rw [poisoned]
    rfl
  cases empty : r.isEmpty with
  | true =>
    simp only [handleTasks, kind.parse_of_name, asked, serve, empty]
    refine ⟨fun panicked => ?_, poisoned, rfl⟩
    obtain ⟨_, same⟩ := panicked
    cases same
  | false =>
    simp only [handleTasks, kind.parse_of_name, asked, serve, empty, got]
    refine ⟨fun panicked => ?_, poisoned, rfl⟩
    obtain ⟨_, same⟩ := panicked
    cases same

theorem handleTasks_nil (ends : kind.ends = true) (e : Engine) (now : Instant) (tenant : TenantId) :
    (e.handleTasks now tenant kind.name []).2.store = e.store ∧
      (e.handleTasks now tenant kind.name []).2.bus = e.bus := by
  cases kind with
  | taskCompleted | taskFailed | taskCancelled => exact ⟨rfl, rfl⟩
  | userEvent | internalEvent | taskTrigger | createdTask | createdDag | createMonitoringEvent
  | notifyTaskCreated | notifyTaskReleased => cases ends

/-- A message may as well come as two, unless handling it panics or its payloads contradict each other. -/
theorem handleTasks_cut (ends : kind.ends = true) (e : Engine) (now : Instant) (tenant : TenantId)
    (b c : List ByteArray) :
    let whole := e.handleTasks now tenant kind.name (b ++ c)
    let first := e.handleTasks now tenant kind.name b
    let rest := first.2.handleTasks now tenant kind.name c
    rest.2.store = whole.2.store ∧ (¬ Panicked whole → ¬ Panicked rest ∧
      ((∀ r, Request.ofPayloads kind (b ++ c) = .ok r → r.Agrees) →
        ∀ q, (rest.2.bus.announced q).Perm (whole.2.bus.announced q))) := by
  intro whole first rest
  obtain ⟨r, r₁, r₂, asked, asked₁, asked₂, cut⟩ := Request.ofPayloads_cut ends b c
  cases store : e.store with
  | poisoned =>
    -- Every access fails, so that neither the whole nor its parts do anything.
    obtain ⟨-, stays, silent⟩ := handleTasks_poisoned (b := b ++ c) ends store
    obtain ⟨-, stays₁, silent₁⟩ := handleTasks_poisoned (b := b) ends store
    obtain ⟨calm, stays₂, silent₂⟩ := handleTasks_poisoned (b := c) ends stays₁
    refine ⟨stays₂.trans stays.symm, fun _ => ⟨calm, fun _ q => .of_eq ?_⟩⟩
    rw [silent₂, silent₁, silent]
  | sound s =>
    cases served : Request.serve s e.ids now tenant r with
    | ok x =>
      obtain ⟨result, took⟩ := handleTasks_took ends asked store served
      obtain ⟨x₁, x₂, served₁, served₂, stored, both⟩ := Request.serve_cut cut e.ids first.2.ids served
      obtain ⟨-, took₁⟩ := handleTasks_took ends asked₁ store served₁
      obtain ⟨result₂, took₂⟩ := handleTasks_took ends asked₂ took₁.store served₂
      refine ⟨took₂.store.trans (stored ▸ took.store.symm), fun _ => ⟨?_, fun agrees q => ?_⟩⟩
      · rintro ⟨text, panicked⟩
        cases result₂.symm.trans panicked
      · exact took.both took₁ took₂ (both (agrees r asked)) q
    | error f =>
      -- The part that panics poisons the store, and the other part cannot mend it.
      obtain ⟨⟨text, rfl⟩, refused⟩ := Request.serve_cut_error cut e.ids first.2.ids served
      obtain ⟨panicked, gone⟩ := handleTasks_panicked ends asked store served
      refine ⟨?_, fun calm => absurd panicked calm⟩
      rw [gone]
      rcases refused with refused | ⟨x₁, served₁, refused⟩
      · have gone₁ := (handleTasks_panicked ends asked₁ store refused).2
        exact (handleTasks_poisoned ends gone₁).2.1
      · obtain ⟨-, took₁⟩ := handleTasks_took ends asked₁ store served₁
        exact (handleTasks_panicked ends asked₂ took₁.store refused).2

def handleEach (e : Engine) (now : Instant) (tenant : TenantId) (kindName : String)
    (messages : List (List ByteArray)) : Engine :=
  messages.foldl (fun e payloads => (e.handleTasks now tenant kindName payloads).2) e

/-- However payloads about attempts that end are put together in messages, the store comes to be the
same. And the same is announced, unless handling all of them at once panics or they contradict each
other. -/
theorem batching_transparent (ends : kind.ends = true) (e : Engine) (now : Instant) (tenant : TenantId)
    (messages : List (List ByteArray)) :
    let whole := e.handleTasks now tenant kind.name messages.flatten
    (e.handleEach now tenant kind.name messages).store = whole.2.store ∧ (¬ Panicked whole →
      (∀ r, Request.ofPayloads kind messages.flatten = .ok r → r.Agrees) →
        ∀ q, ((e.handleEach now tenant kind.name messages).bus.announced q).Perm
          (whole.2.bus.announced q)) := by
  -- The first message is cut off from the whole; the rest is handled by the engine that it leaves.
  induction messages generalizing e with
  | nil =>
    obtain ⟨store, bus⟩ := handleTasks_nil ends e now tenant
    refine ⟨store.symm, fun _ _ q => .of_eq ?_⟩
    rw [List.flatten_nil, bus]
    rfl
  | cons b rest ih =>
    obtain ⟨store, told⟩ := handleTasks_cut ends e now tenant b rest.flatten
    obtain ⟨later, toldLater⟩ := ih (e.handleTasks now tenant kind.name b).2
    refine ⟨later.trans store, fun calm agrees q => ?_⟩
    obtain ⟨calmLater, same⟩ := told calm
    refine (toldLater calmLater ?_ q).trans (same agrees q)
    intro r₂ asked₂
    obtain ⟨r, r₁, r₂', asked, -, asked₂', cut⟩ := Request.ofPayloads_cut ends b rest.flatten
    cases asked₂.symm.trans asked₂'
    exact (cut.agrees (agrees r asked)).2

end Engine

/-! ### A completion that is reported twice -/

namespace System

/-- The engine when somebody has signed up and the mail waits to be sent. -/
def mailing : Engine := { store := .sound signedUp.store }

/-- Two messages, each of which reports that the mail was sent. -/
def reports : List (List ByteArray) := [[Codec.toBytes sent], [Codec.toBytes sent]]

theorem reports_asked : Request.ofPayloads .taskCompleted reports.flatten = .ok (.complete [sent, sent]) := by
  have decoded : decodePayloads CompletedPayload reports.flatten = [sent, sent] := by
    change [Codec.toBytes sent, Codec.toBytes sent].filterMap Codec.ofBytes? = _
    simp only [List.filterMap_cons, sent_read, List.filterMap_nil]
  exact congrArg (Except.ok ∘ Request.complete) decoded

theorem reports_agree : Request.Agrees (.complete [sent, sent]) := by
  intro p hp p' hp' _
  simp only [List.mem_cons, List.not_mem_nil, or_false, or_self] at hp hp'
  rw [hp, hp']

theorem reports_tasks :
    (signedUp.store.complete ⟨3⟩ [sent.attempt, sent.attempt]).2.tasks.map (·.state) = [.completed] :=
  rfl

theorem reports_released :
    (signedUp.store.complete ⟨3⟩ [sent.attempt, sent.attempt]).1.length = 1 :=
  rfl

theorem reports_announced : (Posting.announced .tasks
    (Request.serveComplete signedUp.store {} ⟨0⟩ ⟨3⟩ [sent, sent]).postings).length = 1 := by
  have news := Request.serveComplete_news .tasks signedUp.store {} ⟨0⟩ ⟨3⟩ [sent, sent]
  have each : ∀ t, (Request.completedNews .tasks ⟨0⟩ (Request.lastOutput [sent, sent]) t).length = 1 := by
    intro t
    simp [Request.completedNews, Posting.told]
  have released : (signedUp.store.complete ⟨3⟩ ([sent, sent].map (·.attempt))).1.length = 1 :=
    reports_released
  rw [news.length_eq, List.length_flatMap, funext each, List.map_const', released]
  rfl

theorem reported_twice : ∃ s,
    (mailing.handleEach ⟨0⟩ ⟨3⟩ MessageKind.taskCompleted.name reports).store = .sound s ∧
      s.tasks.map (·.state) = [.completed] ∧
      ((mailing.handleEach ⟨0⟩ ⟨3⟩ MessageKind.taskCompleted.name reports).bus.announced .tasks).length = 1 := by
  have handled : (mailing.handleTasks ⟨0⟩ ⟨3⟩ MessageKind.taskCompleted.name reports.flatten).1 = .ok () ∧
      Engine.Took mailing
        (mailing.handleTasks ⟨0⟩ ⟨3⟩ MessageKind.taskCompleted.name reports.flatten).2
        (Request.serveComplete signedUp.store {} ⟨0⟩ ⟨3⟩ [sent, sent]) :=
    Engine.handleTasks_took rfl reports_asked rfl rfl
  obtain ⟨result, took⟩ := handled
  obtain ⟨stored, told⟩ := Engine.batching_transparent (show MessageKind.taskCompleted.ends = true from rfl)
    mailing ⟨0⟩ ⟨3⟩ reports
  have calm : ¬ Engine.Panicked
      (mailing.handleTasks ⟨0⟩ ⟨3⟩ MessageKind.taskCompleted.name reports.flatten) := by
    rintro ⟨text, panicked⟩
    cases result.symm.trans panicked
  have same := told calm (fun r asked => Except.ok.inj (reports_asked.symm.trans asked) ▸ reports_agree) .tasks
  refine ⟨_, stored.trans took.store, reports_tasks, ?_⟩
  rw [same.length_eq, took.announced]
  exact reports_announced

end System

end WorkflowEngine
