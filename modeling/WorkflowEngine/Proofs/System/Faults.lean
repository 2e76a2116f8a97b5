import WorkflowEngine.Host.Control
import WorkflowEngine.Proofs.ReadModel.InPlace
import WorkflowEngine.Proofs.System.Precedence

/-!
What a fault leaves behind. The command that a request or a pass of a sweep gives to the store is the
only thing about it that can fail, and whatever is published comes after it. So a fault that is no panic
leaves no trace but in what was counted and in the identifiers that were drawn, and a message that is
handled again is handled as if for the first time.
-/

namespace WorkflowEngine

open Fallible Store InPlace

/-! ### Decisions -/

/-- A pass of a sweep on the store: what it finds is failed in place. -/
def Sweep.inPlace (kind : Sweep) (now : Instant) (tenant : TenantId) (limit : Nat) :
    InPlace Store (List Attempt) := do
  let failures ← read (kind.failures · now tenant limit)
  failInPlace now tenant failures

theorem Sweep.inPlace_atomic (now : Instant) (tenant : TenantId) (kind : Sweep) (limit : Nat) :
    Atomic (kind.inPlace now tenant limit)
      fun s => s.obey (.fail now tenant (kind.failures s now tenant limit)) :=
  fun s => fail_atomic now tenant (kind.failures s now tenant limit) s

/-- A write and a computation on the same state, if they come to the same states and faults. -/
theorem Guarded.write_decides {σ α β : Type} {f : σ → Except Fault (α × σ)} {run : σ → Except Fault β}
    {state : β → σ} (same : ∀ s, state <$> run s = (·.2) <$> f s) (g : Guarded σ) :
    match g.get >>= run with
    | .ok b => ∃ a, g.write f = (.ok a, .sound (state b))
    | .error x => g.write f = (.error x, g.afterFault x) := by
  cases g with
  | poisoned => rfl
  | sound s =>
    have agree := same s
    change match run s with
      | .ok b => ∃ a, (sound s).write f = (.ok a, .sound (state b))
      | .error x => (sound s).write f = (.error x, (sound s).afterFault x)
    rw [write]
    cases ran : run s with
    | ok b =>
      rw [ran] at agree
      cases done : f s with
      | ok p =>
        rw [done] at agree
        have agree : state b = p.2 := Except.ok.inj agree
        exact ⟨p.1, by rw [agree]⟩
      | error x =>
        rw [done] at agree
        cases agree
    | error x =>
      rw [ran] at agree
      cases done : f s with
      | ok p =>
        rw [done] at agree
        cases agree
      | error y =>
        rw [done] at agree
        cases agree
        rfl

namespace Engine

variable {e e' : Engine} {now : Instant} {tenant : TenantId} {kind : MessageKind} {kindName : String}
  {payloads : List ByteArray} {r : Request} {x : Fault}

/-- Leaves aside what came of a success. -/
abbrev outcome {α : Type} (result : Except Fault α) : Except Fault Unit := result.map fun _ => ()

/-- A call fails where its program on the store does, with the same fault, and leaves the store that the
program leaves. -/
def Decided {α β : Type} (e : Engine) (p : InPlace Store α) (call : Except Fault β × Engine) : Prop :=
  outcome call.1 = outcome (e.store.writeInPlace p).1 ∧ call.2.store = (e.store.writeInPlace p).2

theorem serve_decided (e : Engine) (now : Instant) (tenant : TenantId) (cause : String)
    (some : r.isEmpty = false) :
    e.Decided (r.command (e.ids.skip r.draws) now tenant).inPlace (e.serve now tenant cause r) := by
  have decides := Guarded.write_decides
    (fun s => Request.serve_command s (e.ids.skip r.draws) now tenant r) e.store
  rw [← (Command.inPlace_atomic _).write e.store] at decides
  simp only [Decided, serve, some, Bool.false_eq_true, if_false]
  revert decides
  cases e.store.get >>= fun s => Request.serve s (e.ids.skip r.draws) now tenant r with
  | ok x =>
    rintro ⟨a, decided⟩
    rw [decided]
    exact ⟨rfl, (perform_performed _ cause x).store⟩
  | error y =>
    intro decided
    rw [decided]
    exact ⟨rfl, rfl⟩

theorem recovered_outcome (e : Engine) (context : String) (result : Except Fault Unit) :
    (e.recovered context result).1 = result := by
  cases result with
  | ok => rfl
  | error x => cases x <;> rfl

theorem recovered_plain (e : Engine) (context : String) (plain : x.isPanic = false) :
    e.recovered context (.error x) = (.error x, e) := by
  have quiet : (Work.ofExcept (.error x : Except Fault Unit)).recover context = (.error x, []) := by
    cases x with
    | panic => cases plain
    | _ => rfl
  rw [recovered, quiet]
  simp only [List.append_nil]

theorem handleTasks_decided (e : Engine) (now : Instant) (tenant : TenantId)
    (asked : Request.ofPayloads kind payloads = .ok r) (some : r.isEmpty = false) :
    e.Decided (r.command (e.ids.skip r.draws) now tenant).inPlace
      (e.handleTasks now tenant kind.name payloads) := by
  obtain ⟨result, store⟩ := serve_decided e now tenant kind.name some
  simp only [Decided, handleTasks, kind.parse_of_name, asked]
  exact ⟨(congrArg outcome (recovered_outcome _ _ _)).trans result, store⟩

theorem sweepOnce_decided (e : Engine) (now : Instant) (kind : Sweep) (tenant : TenantId) :
    e.Decided (kind.inPlace now tenant e.settings.sweepBatchLimit) (e.sweepOnce now kind tenant) := by
  have decides := Guarded.write_decides
    (fun s => sweep_command s e.ids now tenant kind e.settings.sweepBatchLimit) e.store
  rw [← (Sweep.inPlace_atomic now tenant kind _).write e.store] at decides
  simp only [Decided, sweepOnce]
  revert decides
  cases e.store.get >>= fun s => sweep kind s e.ids now tenant e.settings.sweepBatchLimit with
  | ok x =>
    rintro ⟨a, decided⟩
    rw [decided]
    exact ⟨rfl, (perform_performed _ kind.name x.effect).store⟩
  | error y =>
    intro decided
    rw [decided]
    exact ⟨rfl, rfl⟩

/-! ### Faults -/

theorem afterFault_plain {σ : Type} (g : Guarded σ) (plain : x.isPanic = false) : g.afterFault x = g := by
  cases x with
  | panic => cases plain
  | _ => rfl

theorem serve_failed {cause : String} (failed : e.serve now tenant cause r = (.error x, e'))
    (plain : x.isPanic = false) : ∃ ids, e' = { e with ids } := by
  unfold serve at failed
  split at failed
  · cases failed
  · simp only at failed
    split at failed
    · cases failed
    · cases failed
      exact ⟨_, by rw [afterFault_plain _ plain]⟩

/-- To recover from a fault that is no panic, and to count the message, is to count it. -/
theorem counted_failed {context : String} {result : Except Fault Unit}
    (failed : ((e.recovered context result).1,
      (e.recovered context result).2.countHandled kind (e.recovered context result).1) = (.error x, e'))
    (plain : x.isPanic = false) : result = .error x ∧ ∃ metrics, e' = { e with metrics } := by
  obtain ⟨same, rest⟩ := Prod.mk.inj failed
  rw [recovered_outcome] at same
  rw [same, recovered_plain e context plain] at rest
  exact ⟨same, _, rest.symm⟩

/-- A message that fails without a panic leaves the engine as it was, but for what was counted and the
identifiers that were drawn. -/
theorem handleTasks_failed (failed : e.handleTasks now tenant kindName payloads = (.error x, e'))
    (plain : x.isPanic = false) : ∃ metrics ids, e' = { e with metrics, ids } := by
  unfold handleTasks at failed
  split at failed
  · cases failed
    exact ⟨_, _, rfl⟩
  · rename_i kind _
    cases asked : Request.ofPayloads kind payloads with
    | error y =>
      rw [asked] at failed
      obtain ⟨-, metrics, rfl⟩ := counted_failed failed plain
      exact ⟨_, _, rfl⟩
    | ok r =>
      rw [asked] at failed
      obtain ⟨served, metrics, left⟩ :=
        counted_failed (e := (e.serve now tenant kind.name r).2) failed plain
      obtain ⟨ids, rest⟩ := serve_failed (Prod.ext served rfl) plain
      exact ⟨metrics, ids, left.trans (congrArg (fun e₁ : Engine => { e₁ with metrics }) rest)⟩

theorem sweepOnce_failed {kind : Sweep} (failed : e.sweepOnce now kind tenant = (.error x, e'))
    (plain : x.isPanic = false) : e' = e := by
  unfold sweepOnce at failed
  split at failed
  · cases failed
  · cases failed
    rw [afterFault_plain _ plain]

/-! ### Handling again -/

theorem postAll_metrics (e : Engine) (metrics : Metrics) (ps : List Posting) :
    { e with metrics }.postAll ps = ((e.postAll ps).1, { (e.postAll ps).2 with metrics }) := by
  induction ps generalizing e with
  | nil => rfl
  | cons p rest ih =>
    have first : { e with metrics }.post p = ((e.post p).1, { (e.post p).2 with metrics }) := by
      cases p <;> rfl
    simp only [postAll, first, ih]

theorem perform_metrics (e : Engine) (metrics : Metrics) (cause : String) (x : Effect) :
    ({ e with metrics }.perform cause x).store = (e.perform cause x).store ∧
      ({ e with metrics }.perform cause x).bus = (e.perform cause x).bus := by
  have sent := postAll_metrics
    { e with store := .sound x.store, ids := x.ids, metrics := e.metrics.addAll x.counts }
    (metrics.addAll x.counts) x.postings
  unfold perform
  simp only [sent]
  exact ⟨rfl, rfl⟩

/-- Two calls come to the same result, the same store and the same bus. -/
structure Alike {α : Type} (call other : Except Fault α × Engine) : Prop where
  result : call.1 = other.1
  store : call.2.store = other.2.store
  bus : call.2.bus = other.2.bus

theorem serve_metrics (e : Engine) (metrics : Metrics) (now : Instant) (tenant : TenantId)
    (cause : String) (r : Request) :
    Alike ({ e with metrics }.serve now tenant cause r) (e.serve now tenant cause r) := by
  unfold serve
  split
  · exact ⟨rfl, rfl, rfl⟩
  · simp only
    split
    · rename_i x _
      obtain ⟨store, bus⟩ := perform_metrics { e with ids := e.ids.skip r.draws } metrics cause x
      exact ⟨rfl, store, bus⟩
    · exact ⟨rfl, rfl, rfl⟩

/-- What was counted has no part in the handling of a message. -/
theorem handleTasks_metrics (e : Engine) (metrics : Metrics) :
    Alike ({ e with metrics }.handleTasks now tenant kindName payloads)
      (e.handleTasks now tenant kindName payloads) := by
  unfold handleTasks
  split
  · exact ⟨rfl, rfl, rfl⟩
  · rename_i kind _
    cases Request.ofPayloads kind payloads with
    | error y => exact ⟨by simp only [recovered_outcome], rfl, rfl⟩
    | ok r =>
      obtain ⟨result, store, bus⟩ := serve_metrics e metrics now tenant kind.name r
      exact ⟨by simp only [recovered_outcome, result], store, bus⟩

end Engine

/-! ### Locks -/

/-- A write that cannot fail by itself fails only if the store cannot be used. -/
theorem Engine.write_failed {α : Type} {e e' : Engine} {f : Store → α × Store} {x : Fault}
    (failed : e.write (fun s => .ok (f s)) = (.error x, e')) : e' = e := by
  unfold write at failed
  cases store : e.store with
  | sound s =>
    rw [store] at failed
    cases failed
  | poisoned =>
    rw [store] at failed
    cases failed
    rw [← store]

namespace Host

variable {h h' : Host} {tenant : TenantId} {strategy : Strategy} {id : StrategyId} {x : Fault}

/-- A lock that could not be had in time is still held by another, and time has passed. -/
theorem lock_failed (failed : h.lock id = (.error x, h')) :
    h.locked.contains id ∧ h' = h.advance h.settings.lockTimeout.millis := by
  unfold lock awaitLock at failed
  split at failed
  · cases failed
  · rename_i waited
    split at waited
    · rename_i held
      cases waited
      cases failed
      exact ⟨held, rfl⟩
    · cases waited

/-- A strategy whose lock could not be had in time was not run: time has passed, and nothing else was
done. Without another who holds the lock it fails only if the store cannot be used. -/
theorem runStrategy_failed (failed : h.runStrategy tenant strategy = (.error x, h')) :
    (h.locked.contains strategy.id ∧ h' = h.advance h.settings.lockTimeout.millis) ∨ h' = h := by
  unfold runStrategy awaitLock at failed
  split at failed
  · rename_i waited
    split at waited
    · rename_i held
      cases waited
      cases failed
      exact Or.inl ⟨held, rfl⟩
    · cases waited
  · rename_i waited
    split at waited
    · cases waited
    · cases waited
      cases ran : h.engine.runStrategy tenant strategy with
      | mk result engine =>
        rw [act, ran] at failed
        cases failed
        have same : engine = h.engine := Engine.write_failed ran
        exact Or.inr (congrArg (fun engine : Engine => { h with engine }) same)

end Host

/-! ### No trace -/

/-- A fault that is no panic leaves no trace. The commands to the store and the operations of the read
model, done in place, leave what was there. A strategy whose lock is held by another is not run. A
message and a pass of a sweep fail where their command does and leave the engine as it was, with nothing
published, so that the message may as well be handled again. -/
theorem faults_leave_no_trace :
    (∀ c : Command, c.inPlace.Traceless ∧
      ∀ g : Guarded Store, g.writeInPlace c.inPlace = g.write (·.obey c)) ∧
    (∀ op : ReadModel.Operation, op.inPlace.Traceless ∧
      ∀ g : Guarded ReadModel, g.writeInPlace op.inPlace = g.write (·.perform op)) ∧
    (∀ (h h' : Host) (id : StrategyId) (x : Fault), h.lock id = (.error x, h') →
      h.locked.contains id ∧ h' = h.advance h.settings.lockTimeout.millis) ∧
    (∀ (h h' : Host) (tenant : TenantId) (strategy : Strategy) (x : Fault),
      h.runStrategy tenant strategy = (.error x, h') →
        (h.locked.contains strategy.id ∧ h' = h.advance h.settings.lockTimeout.millis) ∨ h' = h) ∧
    (∀ (e : Engine) (now : Instant) (tenant : TenantId) (kind : MessageKind)
      (payloads : List ByteArray) (r : Request), Request.ofPayloads kind payloads = .ok r →
      r.isEmpty = false → e.Decided (r.command (e.ids.skip r.draws) now tenant).inPlace
        (e.handleTasks now tenant kind.name payloads)) ∧
    (∀ (e : Engine) (now : Instant) (kind : Sweep) (tenant : TenantId),
      e.Decided (kind.inPlace now tenant e.settings.sweepBatchLimit) (e.sweepOnce now kind tenant)) ∧
    (∀ (e e' : Engine) (now : Instant) (tenant : TenantId) (kindName : String)
      (payloads : List ByteArray) (x : Fault),
      e.handleTasks now tenant kindName payloads = (.error x, e') → x.isPanic = false →
        (∃ metrics ids, e' = { e with metrics, ids }) ∧
        ∀ later, Engine.Alike (e'.handleTasks later tenant kindName payloads)
          ({ e with ids := e'.ids }.handleTasks later tenant kindName payloads)) ∧
    (∀ (e e' : Engine) (now : Instant) (kind : Sweep) (tenant : TenantId) (x : Fault),
      e.sweepOnce now kind tenant = (.error x, e') → x.isPanic = false → e' = e) := by
  refine ⟨fun c => ⟨c.inPlace_atomic.traceless, c.inPlace_atomic.write⟩,
    fun op => ⟨op.inPlace_atomic.traceless, op.inPlace_atomic.write⟩,
    fun h h' id x failed => Host.lock_failed failed,
    fun h h' tenant strategy x failed => Host.runStrategy_failed failed,
    fun e now tenant kind payloads r asked some => e.handleTasks_decided now tenant asked some,
    fun e now kind tenant => e.sweepOnce_decided now kind tenant, ?_,
    fun e e' now kind tenant x failed plain => Engine.sweepOnce_failed failed plain⟩
  intro e e' now tenant kindName payloads x failed plain
  obtain ⟨metrics, ids, rfl⟩ := Engine.handleTasks_failed failed plain
  exact ⟨⟨metrics, ids, rfl⟩, fun later => Engine.handleTasks_metrics { e with ids } metrics⟩

/-- A store without a partition for the day fails a user event, and neither store nor bus take notice. -/
theorem ring_unserved : ∃ e',
    ({} : Engine).handleTasks ⟨0⟩ ⟨3⟩ MessageKind.userEvent.name [Codec.toBytes System.ring] =
      (.error (.partitionMissing "v1_task" (Instant.date ⟨0⟩)), e') ∧
    e'.store = .sound {} ∧ e'.bus = {} := by
  obtain ⟨-, -, -, -, messages, -, handled, -⟩ := faults_leave_no_trace
  have asked : Request.ofPayloads .userEvent [Codec.toBytes System.ring] = .ok (.userEvents [System.ring]) :=
    congrArg (Except.ok ∘ Request.userEvents) System.ring_decoded
  obtain ⟨decided, -⟩ := messages {} ⟨0⟩ ⟨3⟩ .userEvent _ _ asked rfl
  have refused : Engine.outcome (({} : Engine).store.writeInPlace
      ((Request.userEvents [System.ring]).command {} ⟨0⟩ ⟨3⟩).inPlace).1 =
        .error (.partitionMissing "v1_task" (Instant.date ⟨0⟩)) := rfl
  rcases call : ({} : Engine).handleTasks ⟨0⟩ ⟨3⟩ MessageKind.userEvent.name
    [Codec.toBytes System.ring] with ⟨_ | ⟨⟩, e'⟩
  · rw [call] at decided
    cases decided.trans refused
    obtain ⟨⟨metrics, ids, rfl⟩, -⟩ := handled {} e' ⟨0⟩ ⟨3⟩ _ _ _ call rfl
    exact ⟨_, rfl, rfl, rfl⟩
  · rw [call] at decided
    cases decided.trans refused

end WorkflowEngine
