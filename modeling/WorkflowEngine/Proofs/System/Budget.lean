import WorkflowEngine.Proofs.Bus.Failing
import WorkflowEngine.Proofs.System.Eviction
import WorkflowEngine.Proofs.System.Publication
import WorkflowEngine.Proofs.System.Readable

/-!
The budget of redeliveries that a message sets out with. Whatever the engine is asked to do, a message that
it sends is new, and a new message has the budget that is written into `Message.ofPayloads`. The budget in
the settings is read by nobody: engines whose settings differ in it alone do the same, and send the same.
-/

namespace WorkflowEngine

/-- The settings with another budget. -/
def Settings.withBudget (s : Settings) (n : Nat) : Settings := { s with messageRetries := n }

/-- The message may be delivered again as often as any new one. -/
def Message.Fresh (m : Message) : Prop := m.retries = defaultRetries

theorem Posting.Made.fresh {tenant : TenantId} {ps : List Posting} (made : Posting.Made tenant ps)
    {record : QueueName} {m : Message} (sent : m ∈ Posting.mail record ps) : m.Fresh := by
  obtain ⟨p, listed, goes⟩ := List.mem_filterMap.mp sent
  cases p with
  | error f => cases goes
  | ok post =>
    simp only [Posting.to?] at goes
    split at goes
    · cases goes
      obtain ⟨_, _, _, _, _, -, same⟩ := made.madeOf post listed
      rw [Message.Fresh, same]
      rfl
    · cases goes

namespace Engine

variable {e e' : Engine}

/-! ### What is sent -/

/-- Every message that was accepted was new. -/
def Endowed (e : Engine) : Prop := ∀ q, ∀ m ∈ e.bus.published q, m.Fresh

/-- To the messages on record only new ones were added. -/
def Adds (e e' : Engine) : Prop := ∀ q, ∃ ms, Posted q e e' ms ∧ ∀ m ∈ ms, m.Fresh

theorem Adds.refl (settings : e'.settings = e.settings) (readModel : e'.readModel = e.readModel)
    (cache : e'.cache = e.cache) (bus : e'.bus = e.bus) : Adds e e' := fun _ =>
  ⟨[], .nothing settings readModel cache bus, List.forall_mem_nil _⟩

theorem Adds.trans {e'' : Engine} (first : Adds e e') (second : Adds e' e'') : Adds e e'' := by
  intro q
  obtain ⟨ms, posted, fresh⟩ := first q
  obtain ⟨more, posted', fresh'⟩ := second q
  exact ⟨ms ++ more, posted.trans posted', List.forall_mem_append.mpr ⟨fresh, fresh'⟩⟩

theorem Endowed.adds (endowed : e.Endowed) (adds : Adds e e') : e'.Endowed := by
  intro q m listed
  obtain ⟨ms, posted, fresh⟩ := adds q
  rw [posted.mail] at listed
  rcases List.mem_append.mp listed with old | sent
  · exact endowed q m old
  · split at sent
    · cases sent
    · exact fresh m sent

theorem Idle.adds (idle : Idle e e') : Adds e e' := .refl idle.settings idle.readModel idle.cache idle.bus

theorem Performed.adds {x : Effect} {tenant : TenantId} (done : Performed e e' x)
    (made : Posting.Made tenant x.postings) : Adds e e' := fun q => ⟨_, done.posted q, fun _ => made.fresh⟩

theorem handleTasks_adds (e : Engine) (now : Instant) (tenant : TenantId) (kindName : String)
    (payloads : List ByteArray) : Adds e (e.handleTasks now tenant kindName payloads).2 := by
  rcases e.handleTasks_cases now tenant kindName payloads with
    idle | ⟨kind, r, s, x, rfl, asked, store, served, done⟩
  · exact idle.adds
  · exact done.adds (serve_made served)

theorem sweepOnce_adds (e : Engine) (now : Instant) (kind : Sweep) (tenant : TenantId) :
    Adds e (e.sweepOnce now kind tenant).2 := by
  rcases e.sweepOnce_cases now kind tenant with idle | ⟨s, x, store, swept, done⟩
  · exact idle.adds
  · exact done.adds (sweep_made swept)

theorem evaluate_adds (e : Engine) (tenant : TenantId) (strategy : Strategy) :
    Adds e (e.evaluate tenant strategy).2 := by
  have ran : Adds e (e.runStrategy tenant strategy).2 := .refl rfl rfl rfl rfl
  unfold evaluate
  split <;> rename_i result <;> rw [result] at ran
  · exact ran
  · exact ran.trans (.refl rfl rfl rfl rfl)

theorem orderCancellations_adds (e : Engine) (tenant : TenantId) (placed : List Admission.Placed) :
    Adds e (e.orderCancellations tenant placed).2 := by
  refine fun q => ⟨_, (e.orderCancellations_posted q tenant placed).1, fun m sent => ?_⟩
  split at sent
  · cases List.mem_singleton.mp sent
    rfl
  · cases sent

theorem announceQueued_adds (e : Engine) (tenant : TenantId) (placed : List Admission.Placed) :
    Adds e (e.announceQueued tenant placed).2 := by
  unfold announceQueued
  split
  · exact .refl rfl rfl rfl rfl
  · split
    · exact .refl rfl rfl rfl rfl
    · rename_i postings asked
      cases store : e.store with
      | poisoned =>
        rw [read, store] at asked
        cases asked
      | sound s =>
        rw [read, store] at asked
        cases asked
        exact fun q => ⟨_, (e.postAll_posted q _).1, fun _ => (made_created s _).fresh⟩

theorem announce_adds (e : Engine) (r : Evaluation) : Adds e (e.announce r).2 :=
  (e.orderCancellations_adds r.tenantId r.summary.cancelled).trans (announceQueued_adds _ _ _)

/-! ### The budget in the settings -/

def withBudget (n : Nat) (e : Engine) : Engine := { e with settings := e.settings.withBudget n }

variable {n : Nat}

theorem withBudget_store : (e.withBudget n).store = e.store := rfl

theorem withBudget_ids : (e.withBudget n).ids = e.ids := rfl

theorem write_withBudget {α : Type} (f : Store → Except Fault (α × Store)) :
    (e.withBudget n).write f = (e.write f).map id (withBudget n) := rfl

theorem postAll_withBudget (e : Engine) (ps : List Posting) :
    (e.withBudget n).postAll ps = (e.postAll ps).map id (withBudget n) := by
  induction ps generalizing e with
  | nil => rfl
  | cons p rest ih =>
    have first : (e.withBudget n).post p = (e.post p).map id (withBudget n) := by cases p <;> rfl
    simp only [postAll, first, Prod.map, ih]
    rfl

theorem perform_withBudget (cause : String) (x : Effect) :
    (e.withBudget n).perform cause x = (e.perform cause x).withBudget n := by
  let taken : Engine :=
    { e with store := .sound x.store, ids := x.ids, metrics := e.metrics.addAll x.counts }
  have sent : (taken.withBudget n).postAll x.postings = _ := postAll_withBudget taken x.postings
  change (((taken.withBudget n).postAll x.postings).2.count _
    ((taken.withBudget n).postAll x.postings).1.length) = _
  rw [sent]
  rfl

theorem serve_withBudget (now : Instant) (tenant : TenantId) (cause : String) (r : Request) :
    (e.withBudget n).serve now tenant cause r = (e.serve now tenant cause r).map id (withBudget n) := by
  unfold serve
  split
  · rfl
  · cases served : e.store.get >>= fun s => Request.serve s (e.ids.skip r.draws) now tenant r with
    | error f =>
      simp only [withBudget_store, withBudget_ids, served]
      rfl
    | ok x =>
      simp only [withBudget_store, withBudget_ids, served]
      exact congrArg (Prod.mk _) (perform_withBudget cause x)

theorem handleTasks_withBudget (now : Instant) (tenant : TenantId) (kindName : String)
    (payloads : List ByteArray) : (e.withBudget n).handleTasks now tenant kindName payloads =
      (e.handleTasks now tenant kindName payloads).map id (withBudget n) := by
  unfold handleTasks
  cases MessageKind.parse kindName with
  | error f => rfl
  | ok kind =>
    dsimp only
    cases Request.ofPayloads kind payloads with
    | error f => rfl
    | ok r =>
      dsimp only
      rw [serve_withBudget]
      rfl

theorem sweepOnce_withBudget (now : Instant) (kind : Sweep) (tenant : TenantId) :
    (e.withBudget n).sweepOnce now kind tenant =
      (e.sweepOnce now kind tenant).map id (withBudget n) := by
  have limit : (e.withBudget n).settings.sweepBatchLimit = e.settings.sweepBatchLimit := rfl
  unfold sweepOnce
  rw [withBudget_store, withBudget_ids, limit]
  cases e.store.get >>= fun s => sweep kind s e.ids now tenant e.settings.sweepBatchLimit with
  | error f => rfl
  | ok x => exact congrArg (Prod.mk _) (perform_withBudget kind.name x.effect)

theorem evaluate_withBudget (tenant : TenantId) (strategy : Strategy) :
    (e.withBudget n).evaluate tenant strategy =
      (e.evaluate tenant strategy).map id (withBudget n) := by
  have ran : (e.withBudget n).runStrategy tenant strategy =
    (e.runStrategy tenant strategy).map id (withBudget n) := write_withBudget _
  unfold evaluate
  rw [ran]
  rcases e.runStrategy tenant strategy with ⟨_ | summary, e'⟩ <;> rfl

theorem orderCancellations_withBudget (tenant : TenantId) (placed : List Admission.Placed) :
    (e.withBudget n).orderCancellations tenant placed =
      (e.orderCancellations tenant placed).map id (withBudget n) := by
  have sent : (e.withBudget n).send .tasks (Message.cancelled tenant (placed.map cancellation)) =
    (e.send .tasks (Message.cancelled tenant (placed.map cancellation))).map id (withBudget n) := rfl
  unfold orderCancellations
  split
  · rfl
  · rw [sent]
    rcases e.send .tasks (Message.cancelled tenant (placed.map cancellation)) with ⟨_ | _, e'⟩ <;> rfl

theorem announceQueued_withBudget (e : Engine) (tenant : TenantId) (placed : List Admission.Placed) :
    (e.withBudget n).announceQueued tenant placed =
      (e.announceQueued tenant placed).map id (withBudget n) := by
  unfold announceQueued
  split
  · rfl
  · rw [read, withBudget_store, ← read]
    cases e.read fun s => Posting.created s tenant (placed.map fun p => (p.queue, [])) with
    | error f => rfl
    | ok postings => exact postAll_withBudget e postings

theorem announce_withBudget (r : Evaluation) :
    (e.withBudget n).announce r = (e.announce r).map id (withBudget n) := by
  unfold announce
  simp only [orderCancellations_withBudget, Prod.map, announceQueued_withBudget]

end Engine

namespace Handoff

variable {h : Handoff} {n : Nat}

def withBudget (n : Nat) (h : Handoff) : Handoff := { h with engine := h.engine.withBudget n }

theorem evaluate_withBudget (tenant : TenantId) (strategy : Strategy) :
    (h.withBudget n).evaluate tenant strategy = (h.evaluate tenant strategy).withBudget n := by
  simp only [evaluate, withBudget, Engine.evaluate_withBudget, Prod.map]
  rcases h.engine.evaluate tenant strategy with ⟨_ | summary, e⟩ <;> rfl

theorem announce_withBudget (i : Nat) : (h.withBudget n).announce i = (h.announce i).withBudget n := by
  cases here : h.results[i]? with
  | none => simp only [announce, withBudget, here]
  | some r =>
    rw [announce_eq (h := h.withBudget n) here, announce_eq here]
    simp only [withBudget, Engine.announce_withBudget]
    rfl

theorem deliver_withBudget (now : Instant) (i : Nat) :
    (h.withBudget n).deliver now i = (h.deliver now i).withBudget n := by
  have mail : (h.withBudget n).mail = h.mail := rfl
  simp only [deliver, mail]
  cases h.mail[i]? with
  | none => rfl
  | some m =>
    simp only [withBudget, Engine.handleTasks_withBudget, Prod.map]
    rcases h.engine.handleTasks now m.tenantId m.kindName m.payloads with ⟨_ | _, e⟩ <;> rfl

theorem act_withBudget (a : Action) : (h.withBudget n).act a = (h.act a).withBudget n := by
  cases a with
  | command | block => rfl
  | sweep now kind tenant => simp only [act, withBudget, Engine.sweepOnce_withBudget, Prod.map]
  | handle now tenant kindName payloads =>
    simp only [act, withBudget, Engine.handleTasks_withBudget, Prod.map]
  | evaluate tenant strategy => exact evaluate_withBudget tenant strategy
  | announce i => exact announce_withBudget i
  | deliver now i => exact deliver_withBudget now i

theorem run_withBudget (h : Handoff) (actions : List Action) :
    (h.withBudget n).run actions = (h.run actions).withBudget n := by
  induction actions generalizing h with
  | nil => rfl
  | cons a rest ih =>
    change ((h.withBudget n).act a).run rest = ((h.act a).run rest).withBudget n
    rw [act_withBudget, ih]

/-! ### Along a run -/

theorem act_handle (h : Handoff) (now : Instant) (tenant : TenantId) (kindName : String)
    (payloads : List ByteArray) : (h.act (.handle now tenant kindName payloads)).engine =
      (h.engine.handleTasks now tenant kindName payloads).2 := rfl

theorem evaluate_adds (h : Handoff) (tenant : TenantId) (strategy : Strategy) :
    Engine.Adds h.engine (h.evaluate tenant strategy).engine := by
  have adds := h.engine.evaluate_adds tenant strategy
  unfold evaluate
  split <;> rename_i ran <;> rwa [ran] at adds

theorem announce_adds (h : Handoff) (i : Nat) : Engine.Adds h.engine (h.announce i).engine := by
  cases here : h.results[i]? with
  | none =>
    rw [announce, here]
    exact .refl rfl rfl rfl rfl
  | some r =>
    rw [announce_eq here]
    exact h.engine.announce_adds r

theorem deliver_adds (h : Handoff) (now : Instant) (i : Nat) :
    Engine.Adds h.engine (h.deliver now i).engine := by
  unfold deliver
  split
  · exact .refl rfl rfl rfl rfl
  · rename_i m _
    have adds := h.engine.handleTasks_adds now m.tenantId m.kindName m.payloads
    split <;> rename_i handled <;> rwa [handled] at adds

theorem act_endowed (endowed : h.engine.Endowed) (a : Action) : (h.act a).engine.Endowed := by
  cases a with
  | command c spares => exact endowed.adds (.refl rfl rfl rfl rfl)
  | block leads => exact endowed
  | sweep now kind tenant => exact endowed.adds (h.engine.sweepOnce_adds now kind tenant)
  | handle now tenant kindName payloads =>
    exact endowed.adds (h.engine.handleTasks_adds now tenant kindName payloads)
  | evaluate tenant strategy => exact endowed.adds (h.evaluate_adds tenant strategy)
  | announce i => exact endowed.adds (h.announce_adds i)
  | deliver now i => exact endowed.adds (h.deliver_adds now i)

theorem run_endowed (endowed : h.engine.Endowed) (actions : List Action) :
    (h.run actions).engine.Endowed :=
  List.foldlRecOn (motive := fun h : Handoff => h.engine.Endowed) actions act endowed
    fun _ endowed a _ => act_endowed endowed a

theorem start_endowed (settings : Settings) : (start settings).engine.Endowed := fun _ =>
  List.forall_mem_nil _

/-! ### Somebody signs up -/

/-- Settings by which a message should be delivered again twice. -/
def impatient : Settings := { messageRetries := 2 }

theorem createPartitions_spares : (Command.createPartitions ⟨0⟩).evicts = false := rfl

def preparations : List Action := [
  .command (.registerWorkflow ⟨3⟩ System.welcome) rfl,
  .command (.createPartitions ⟨0⟩) createPartitions_spares]

def onSignup : Action := .handle ⟨0⟩ ⟨3⟩ MessageKind.userEvent.name [Codec.toBytes System.signup]

/-- The read model is told of the mail that is to be sent. -/
def mailTold : Message := Message.createdTasks ⟨3⟩ System.signedUp.tasks

theorem onSignup_performed : Engine.Performed ((start impatient).run preparations).engine
    (((start impatient).run preparations).engine.handleTasks ⟨0⟩ ⟨3⟩ MessageKind.userEvent.name
      [Codec.toBytes System.signup]).2 (Request.ofCreation System.signedUp ⟨0⟩ ⟨3⟩) :=
  (Engine.handleTasks_served (e := ((start impatient).run preparations).engine)
    (s := System.openedStore) System.signup_asked rfl rfl System.signup_served).2

theorem mailTold_mail :
    mailTold ∈ Posting.mail .readModel (Request.ofCreation System.signedUp ⟨0⟩ ⟨3⟩).postings := by
  refine List.mem_filterMap.mpr ⟨.ok ⟨.readModel, mailTold⟩, ?_, rfl⟩
  exact List.mem_append_left _ (List.mem_append_left _ (List.mem_append_left _
    (List.mem_append_left _ List.mem_cons_self)))

theorem mailTold_sent :
    mailTold ∈ ((start impatient).run (preparations ++ [onSignup])).engine.bus.published .readModel := by
  have run : (start impatient).run (preparations ++ [onSignup]) =
    ((start impatient).run preparations).act onSignup := List.foldl_append ..
  have sent := (onSignup_performed.posted .readModel).published rfl
  rw [run, onSignup, act_handle, sent]
  exact List.mem_append_right _ mailTold_mail

/-! ### The budget of every message -/

/-- Whatever budget the settings have, the engine sends the same messages, and each message sets out with
the budget of a new one: a consumer whose calls for it all fail handles it once more than that, and then
drops it. -/
theorem budget_unheeded (settings : Settings) (actions : List Action) :
    (∀ n, ((start (settings.withBudget n)).run actions).engine.bus =
      ((start settings).run actions).engine.bus) ∧
    ∀ q, ∀ m ∈ ((start settings).run actions).engine.bus.published q,
      m.retries = Message.defaultRetries ∧
      ∀ queue maxBatch steps o k, (Lineage.after queue maxBatch steps k).first[o]? = some m →
        Lineage.Fails (Lineage.after queue maxBatch steps) steps o →
        ∃ k₀, ∀ k' ≥ k₀,
          (Lineage.after queue maxBatch steps k').timesHandled o = Message.defaultRetries + 1 ∧
            ∃ c ∈ (Lineage.after queue maxBatch steps k').dropped, c.origin = o := by
  refine ⟨fun n => ?_, fun q m sent => ?_⟩
  · have same : (start (settings.withBudget n)).run actions =
      ((start settings).run actions).withBudget n := run_withBudget (start settings) actions
    rw [same]
    rfl
  · have fresh : m.retries = Message.defaultRetries :=
      run_endowed (start_endowed settings) actions q m sent
    refine ⟨fresh, fun queue maxBatch steps o k first fails => ?_⟩
    exact fresh ▸ fails.timesHandled first

/-- By the settings it should be handled three times, and it is handled six times. -/
theorem mailTold_unheeded :
    mailTold ∈ ((start impatient).run (preparations ++ [onSignup])).engine.bus.published .readModel ∧
    impatient.messageRetries = 2 ∧ mailTold.retries = 5 ∧
    ((start (impatient.withBudget 9)).run (preparations ++ [onSignup])).engine.bus =
      ((start impatient).run (preparations ++ [onSignup])).engine.bus ∧
    (Lineage.after .readModel 100 (Lineage.vainly mailTold) 1).first[0]? = some mailTold ∧
    Lineage.Fails (Lineage.after .readModel 100 (Lineage.vainly mailTold)) (Lineage.vainly mailTold) 0 ∧
    ∃ k₀, ∀ k ≥ k₀, (Lineage.after .readModel 100 (Lineage.vainly mailTold) k).timesHandled 0 = 6 ∧
      ∃ c ∈ (Lineage.after .readModel 100 (Lineage.vainly mailTold) k).dropped, c.origin = 0 := by
  obtain ⟨same, sends⟩ := budget_unheeded impatient (preparations ++ [onSignup])
  obtain ⟨retries, handled⟩ := sends .readModel mailTold mailTold_sent
  obtain ⟨first, fails⟩ := Lineage.vainly_fails .readModel (by decide : 1 < 100) mailTold
  exact ⟨mailTold_sent, rfl, retries, same 9, first, fails, handled _ _ _ 0 1 first fails⟩

end Handoff

end WorkflowEngine
