import WorkflowEngine.Proofs.Bus.Readable
import WorkflowEngine.Proofs.Store.Endings
import WorkflowEngine.Proofs.System.Batches

/-!
What the dispatchers are told when attempts are cancelled. An attempt that a worker of the tenant has, and
whose payload asks for it, is to be stopped: its dispatcher is told so once, by one message for all of its
attempts, and no other dispatcher hears of it.
-/

namespace WorkflowEngine

open Store

/-- The attempt that is to stop. -/
def StopPayload.attempt (x : StopPayload) : Attempt := ⟨x.taskId, x.retryCount⟩

namespace Posting

variable {α : Type} {s : Store} {tenant : TenantId} {d : DispatcherId}

/-! ### One message for a dispatcher -/

/-- What goes to the dispatcher, of things that go to dispatchers. -/
def sentTo (d : DispatcherId) (l : List (DispatcherId × α)) : List α :=
  l.filterMap fun x => if x.1 = d then some x.2 else none

theorem mem_sentTo {l : List (DispatcherId × α)} {a : α} : a ∈ sentTo d l ↔ (d, a) ∈ l := by
  simp only [sentTo, List.mem_filterMap, Option.ite_none_right_eq_some, Option.some.injEq]
  constructor
  · rintro ⟨x, hx, rfl, rfl⟩
    exact hx
  · intro h
    exact ⟨_, h, rfl, rfl⟩

theorem sentTo_cons (x : DispatcherId × α) (l : List (DispatcherId × α)) :
    sentTo d (x :: l) = if x.1 = d then x.2 :: sentTo d l else sentTo d l := by
  by_cases here : x.1 = d <;> simp [sentTo, here]

/-- The orders together, if there are any. -/
def bundle (orders : List α) : List (List α) := if orders.isEmpty then [] else [orders]

/-- One more order, behind those of the first bundle. -/
def extend (p : α) : List (List α) → List (List α)
  | [] => [[p]]
  | ps :: rest => (ps ++ [p]) :: rest

theorem extend_bundle (p : α) (ps : List α) : extend p (bundle ps) = bundle (ps ++ [p]) := by
  cases ps <;> rfl

theorem sentTo_addStop (e : DispatcherId) (p : StopPayload) (acc : List (DispatcherId × List StopPayload)) :
    sentTo d (addStop e p acc) = if e = d then extend p (sentTo d acc) else sentTo d acc := by
  induction acc with
  | nil => by_cases here : e = d <;> simp [addStop, sentTo, extend, here]
  | cons x rest ih =>
    obtain ⟨f, ps⟩ := x
    by_cases same : f = e
    · subst same
      have added : addStop f p ((f, ps) :: rest) = (f, ps ++ [p]) :: rest := by simp [addStop]
      rw [added, sentTo_cons, sentTo_cons]
      split <;> rfl
    · have added : addStop e p ((f, ps) :: rest) = (f, ps) :: addStop e p rest := by simp [addStop, same]
      rw [added, sentTo_cons, sentTo_cons, ih]
      by_cases here : f = d
      · have other : e ≠ d := fun h => same (here.trans h.symm)
        simp [here, other]
      · simp [here]

/-- Gathered by dispatchers, the orders for each of them are together. -/
theorem sentTo_gathered (d : DispatcherId) (routed : List (DispatcherId × StopPayload)) :
    sentTo d (routed.foldl (fun acc x => addStop x.1 x.2 acc) []) = bundle (sentTo d routed) := by
  induction routed using List.reverseRecOn with
  | nil => rfl
  | append_singleton before x ih =>
    rw [List.foldl_append, List.foldl_cons, List.foldl_nil, sentTo_addStop, ih, extend_bundle]
    by_cases here : x.1 = d <;> simp [sentTo, here]

theorem routed_of_gathered {routed : List (DispatcherId × StopPayload)} {x : DispatcherId × List StopPayload}
    (h : x ∈ routed.foldl (fun acc x => addStop x.1 x.2 acc) []) : ∃ p, (x.1, p) ∈ routed := by
  have bundled : x.2 ∈ bundle (sentTo x.1 routed) := sentTo_gathered x.1 routed ▸ mem_sentTo.mpr h
  cases orders : sentTo x.1 routed with
  | nil =>
    rw [orders] at bundled
    cases bundled
  | cons p rest => exact ⟨p, mem_sentTo.mp (orders ▸ List.mem_cons_self)⟩

theorem stop?_eq_some {a : Attempt} {id : WorkerId} {x : StopPayload} :
    stop? s tenant (a, id) = some (d, x) ↔
      (∃ w, s.worker? id = some w ∧ w.tenantId = tenant ∧ w.dispatcherId = d) ∧
        x.attempt = a ∧ x.workerId = id := by
  simp only [stop?, Option.bind_eq_bind, Option.pure_def, Option.bind_eq_some_iff,
    Option.filter_eq_some_iff, beq_iff_eq, Option.some.injEq, Prod.mk.injEq]
  constructor
  · rintro ⟨w, ⟨found, owner⟩, dispatcher, rfl⟩
    exact ⟨⟨w, found, owner, dispatcher⟩, rfl, rfl⟩
  · rintro ⟨⟨w, found, owner, dispatcher⟩, rfl, rfl⟩
    exact ⟨w, ⟨found, owner⟩, dispatcher, rfl⟩

/-- A dispatcher gets one message with all its orders, or none if it has none. -/
theorem mail_stops_dispatcher (attempts : List (Attempt × WorkerId)) (fits : (QueueName.dispatcher d).Fits)
    (known : ∀ w ∈ s.workers, (QueueName.dispatcher w.dispatcherId).Fits) :
    mail (.dispatcher d) (stops s tenant attempts) =
      (bundle (sentTo d (attempts.filterMap (stop? s tenant)))).map (Message.stops tenant) := by
  have connected : ∀ x ∈ attempts.filterMap (stop? s tenant), (QueueName.dispatcher x.1).Fits := by
    intro x hx
    obtain ⟨⟨a, id⟩, -, stopped⟩ := List.mem_filterMap.mp hx
    obtain ⟨⟨w, found, -, dispatcher⟩, -⟩ := stop?_eq_some.mp stopped
    exact dispatcher ▸ known w (List.mem_of_find?_eq_some found)
  generalize routes : attempts.filterMap (stop? s tenant) = routed at connected
  have listed : stops s tenant attempts = (routed.foldl (fun acc x => addStop x.1 x.2 acc) []).map
      fun x => .ok ⟨.dispatcher x.1, Message.stops tenant x.2⟩ := by
    rw [← routes]
    rfl
  rw [listed, mail, List.filterMap_map, ← sentTo_gathered, sentTo, List.map_filterMap]
  refine List.filterMap_congr fun x hx => ?_
  -- A dispatcher with a bundle has an order, and so its queue is told apart by its name.
  obtain ⟨p, routed⟩ := routed_of_gathered hx
  by_cases here : x.1 = d
  · simp [to?, here]
  · have apart : (QueueName.dispatcher x.1).text ≠ (QueueName.dispatcher d).text := fun same =>
      here (QueueName.dispatcher.inj (QueueName.text_injective (connected _ routed) fits same))
    simp [to?, here, apart]

end Posting

/-! ### Orders of a batch -/

namespace Request

variable {s : Store} {ids : IdSource} {now : Instant} {tenant : TenantId} {d : DispatcherId}
  {ps : List CancelledPayload} {x : StopPayload}

/-- The last payload for the attempt. -/
def orderFor (ps : List CancelledPayload) (a : Attempt) : Option CancelledPayload :=
  ps.findRev? (·.attempt == a)

/-- The orders to stop that a batch of cancellations comes to. -/
def stopOrders (s : Store) (tenant : TenantId) (ps : List CancelledPayload) :
    List (DispatcherId × StopPayload) :=
  (s.cancel tenant (ps.map (·.attempt))).1.filterMap (stopOrder s tenant (orderFor ps))

theorem mail_serveCancel (fits : (QueueName.dispatcher d).Fits)
    (known : ∀ w ∈ s.workers, (QueueName.dispatcher w.dispatcherId).Fits) :
    Posting.mail (.dispatcher d) (serveCancel s ids now tenant ps).postings =
      (Posting.bundle (Posting.sentTo d (stopOrders s tenant ps))).map (Message.stops tenant) := by
  have same := s.cancel_workers tenant (ps.map (·.attempt))
  have readModel : QueueName.readModel.text ≠ (QueueName.dispatcher d).text :=
    (QueueName.dispatcher_readModel d).symm
  have tasks : QueueName.tasks.text ≠ (QueueName.dispatcher d).text := (QueueName.dispatcher_tasks d).symm
  have scheduler : ∀ partition, (QueueName.scheduler partition).text ≠ (QueueName.dispatcher d).text :=
    fun partition => (QueueName.dispatcher_scheduler d partition).symm
  simp only [serveCancel, Posting.mail_append, Posting.mail_internalEvents tasks, Posting.monitoring,
    Posting.mail_ofPayloads_other readModel, Posting.mail_released scheduler, List.append_nil]
  rw [Posting.mail_stops_dispatcher _ fits (same.symm ▸ known), List.filterMap_filterMap,
    funext (Posting.stop?_workers same), stopOrders]
  refine congrArg (fun orders => (Posting.bundle (Posting.sentTo d orders)).map (Message.stops tenant))
    (List.filterMap_congr fun t _ => ?_)
  simp only [stopOrder, orderFor, Option.bind_eq_bind, Option.bind_assoc, Option.pure_def, Option.bind_some]

/-- The order is due to the dispatcher: the attempt got cancelled between the stores, a worker that the
dispatcher connects to the tenant had it, and its payload asks that it be stopped. -/
structure Due (s s' : Store) (tenant : TenantId) (ps : List CancelledPayload) (d : DispatcherId)
    (x : StopPayload) : Prop where
  cancelled : s.Became s' x.attempt .cancelled
  assigned : ∃ t ∈ s.tasks, t.attempt = x.attempt ∧ t.workerId = some x.workerId
  connected : ∃ w, s.worker? x.workerId = some w ∧ w.tenantId = tenant ∧ w.dispatcherId = d
  asked : ∃ p ∈ ps, p.attempt = x.attempt ∧ p.shouldNotify = true

theorem orderFor_eq_some (distinct : (ps.map (·.attempt)).Nodup) {a : Attempt} {p : CancelledPayload} :
    orderFor ps a = some p ↔ p ∈ ps ∧ p.attempt = a := by
  rw [orderFor, List.findRev?_eq_find?_reverse]
  constructor
  · intro found
    exact ⟨List.mem_reverse.mp (List.mem_of_find?_eq_some found), by simpa using List.find?_some found⟩
  · rintro ⟨hp, rfl⟩
    cases found : ps.reverse.find? (·.attempt == p.attempt) with
    | none => exact absurd (beq_iff_eq.mpr rfl) (List.find?_eq_none.mp found p (List.mem_reverse.mpr hp))
    | some q =>
      have hq := List.mem_reverse.mp (List.mem_of_find?_eq_some found)
      have same : q.attempt = p.attempt := by simpa using List.find?_some found
      rw [List.inj_on_of_nodup_map distinct hq hp same]

theorem stopOrder_eq_some {order : Attempt → Option CancelledPayload} {t : ReleasedTask} :
    stopOrder s tenant order t = some (d, x) ↔ (∃ p, order t.attempt = some p ∧ p.shouldNotify = true) ∧
      (∃ w, s.worker? x.workerId = some w ∧ w.tenantId = tenant ∧ w.dispatcherId = d) ∧
        (t.attempt, t.workerId) = (x.attempt, some x.workerId) := by
  simp only [stopOrder, Option.bind_eq_bind, Option.bind_eq_some_iff, Option.guard_eq_some', Posting.stop?_eq_some,
    Prod.mk.injEq]
  constructor
  · rintro ⟨p, ordered, -, notify, id, given, connected, named, rfl⟩
    exact ⟨⟨p, ordered, notify⟩, connected, named.symm, given⟩
  · rintro ⟨⟨p, ordered, notify⟩, connected, named, given⟩
    exact ⟨p, ordered, (), notify, x.workerId, given, connected, named.symm, rfl⟩

/-- The orders that a batch comes to are those that are due. -/
theorem mem_stopOrders (sound : s.Sound) (distinct : (ps.map (·.attempt)).Nodup) :
    (d, x) ∈ stopOrders s tenant ps ↔ Due s (s.cancel tenant (ps.map (·.attempt))).2 tenant ps d x := by
  rw [stopOrders, List.mem_filterMap]
  constructor
  · rintro ⟨t, ht, order⟩
    obtain ⟨⟨p, ordered, notify⟩, connected, named⟩ := stopOrder_eq_some.mp order
    obtain ⟨ha, u, accepted, given⟩ := (cancel_releases sound distinct).mp ⟨t, ht, named⟩
    obtain ⟨hu, -, attempt, -⟩ := sound.ordered.accepted?_iff.mp accepted
    rw [(Prod.mk.inj named).1, orderFor_eq_some distinct] at ordered
    have live : s.Live tenant x.attempt := ⟨u, sound.ordered.accepted?_iff.mp accepted⟩
    exact ⟨(cancel_became sound).mpr ⟨ha, live⟩, ⟨u, hu, attempt, given⟩, connected, p, ordered.1,
      ordered.2, notify⟩
  · rintro ⟨cancelled, ⟨t, ht, attempt, given⟩, connected, p, hp, about, notify⟩
    obtain ⟨ha, u, live⟩ := (cancel_became sound).mp cancelled
    have accepted := sound.ordered.accepted?_iff.mpr live
    obtain ⟨hu, -, named, -⟩ := live
    obtain rfl := sound.ordered.eq_of_id hu ht (congrArg Attempt.id (named.trans attempt.symm))
    obtain ⟨r, hr, same⟩ := (cancel_releases sound distinct).mpr ⟨ha, u, accepted, given⟩
    refine ⟨r, hr, stopOrder_eq_some.mpr ⟨⟨p, ?_, notify⟩, connected, same⟩⟩
    rw [(Prod.mk.inj same).1, orderFor_eq_some distinct]
    exact ⟨hp, about⟩

/-- No attempt is to be stopped twice. -/
theorem stopOrders_distinct (sound : s.Sound) (distinct : (ps.map (·.attempt)).Nodup) :
    (stopOrders s tenant ps).Pairwise fun x y => x.2.attempt ≠ y.2.attempt := by
  refine (cancel_distinct sound distinct).filterMap _ fun t u other x hx y hy same => other ?_
  obtain ⟨d, x⟩ := x
  obtain ⟨e, y⟩ := y
  obtain ⟨-, -, named⟩ := stopOrder_eq_some.mp hx
  obtain ⟨-, -, named'⟩ := stopOrder_eq_some.mp hy
  exact (Prod.mk.inj named).1.trans (same.trans (Prod.mk.inj named').1.symm)

end Request

/-! ### Cancellation -/

namespace Engine

variable {e : Engine} {s : Store} {evicted : List Attempt} {tenant : TenantId} {payloads : List ByteArray}

/-- A batch of cancellations is carried out, and announced if there is something in it. -/
theorem handleTasks_cancel (now : Instant) (tenant : TenantId) (payloads : List ByteArray)
    (store : e.store = .sound s) :
    let ps := decodePayloads CancelledPayload payloads
    let handled := e.handleTasks now tenant MessageKind.taskCancelled.name payloads
    handled.1 = .ok () ∧ handled.2.store = .sound (s.cancel tenant (ps.map (·.attempt))).2 ∧
      ∀ record, Posted record e handled.2
        (Posting.mail record (Request.serveCancel s e.ids now tenant ps).postings) := by
  intro ps handled
  have asked : Request.ofPayloads .taskCancelled payloads = .ok (.cancel ps) := rfl
  cases some : (Request.cancel ps).isEmpty with
  | true =>
    have nothing : ps = [] := List.isEmpty_iff.mp some
    simp only [handled, handleTasks, MessageKind.parse_of_name, asked, serve, nothing]
    exact ⟨rfl, store, fun record => .nothing rfl rfl rfl rfl⟩
  | false =>
    obtain ⟨result, performed⟩ := @handleTasks_served e now tenant _ _ _ _ _ asked some store rfl
    exact ⟨result, performed.store, performed.posted⟩

/-- A batch cancels what it names and what can still end, and the dispatchers are told to stop exactly what
is due to them: each with one message for all of its attempts or none, and no attempt twice. -/
theorem cancelled_stopped (reached : Reachable evicted s) (store : e.store = .sound s)
    (accepted : e.bus.blocked = []) (known : ∀ w ∈ s.workers, (QueueName.dispatcher w.dispatcherId).Fits)
    (distinct : ((decodePayloads CancelledPayload payloads).map (·.attempt)).Nodup) (now : Instant)
    (tenant : TenantId) :
    ∃ (e' : Engine) (s' : Store) (told : DispatcherId → List StopPayload),
      e.handleTasks now tenant MessageKind.taskCancelled.name payloads = (.ok (), e') ∧ e'.store = .sound s' ∧
      (∀ a, s.Became s' a .cancelled ↔
        a ∈ (decodePayloads CancelledPayload payloads).map (·.attempt) ∧ s.Live tenant a) ∧
      (∀ d, (QueueName.dispatcher d).Fits → e'.bus.published (.dispatcher d) =
        e.bus.published (.dispatcher d) ++ if (told d).isEmpty then [] else [Message.stops tenant (told d)]) ∧
      (∀ d x, x ∈ told d ↔ Request.Due s s' tenant (decodePayloads CancelledPayload payloads) d x) ∧
      (∀ d, (told d).Nodup) ∧
      ∀ d d' x x', x ∈ told d → x' ∈ told d' → x.attempt = x'.attempt → d = d' ∧ x = x' := by
  obtain ⟨result, store', posted⟩ := handleTasks_cancel now tenant payloads store
  let ps := decodePayloads CancelledPayload payloads
  let orders := Request.stopOrders s tenant ps
  have apart : orders.Pairwise fun x y => x.2.attempt ≠ y.2.attempt :=
    Request.stopOrders_distinct reached.sound distinct
  refine ⟨_, _, fun d => Posting.sentTo d orders, Prod.ext result rfl, store',
    fun a => cancel_became reached.sound, ?_, ?_, ?_, ?_⟩
  · intro d fits
    rw [(posted _).published accepted, Request.mail_serveCancel fits known, Posting.bundle]
    split <;> rfl
  · intro d x
    rw [Posting.mem_sentTo]
    exact Request.mem_stopOrders reached.sound distinct
  · intro d
    refine apart.filterMap _ fun x y other p hp q hq same => other ?_
    simp only [Option.ite_none_right_eq_some, Option.some.injEq] at hp hq
    rw [hp.2, hq.2, same]
  · intro d d' x x' hx hx' same
    have equal := List.inj_on_of_nodup_map (List.pairwise_map.mpr apart) (Posting.mem_sentTo.mp hx)
      (Posting.mem_sentTo.mp hx') same
    exact Prod.mk.inj equal

/-- Four mails are ordered. Two of them are with workers of one dispatcher, the third with a worker that the
tenant does not know, and the last one waits. -/
def staffing : List Command := [
  .registerWorkflow ⟨3⟩
    { id := ⟨1⟩, name := "mail", steps := [{ id := ⟨2⟩, readableId := "send", queue := "default" }] },
  .createPartitions ⟨0⟩,
  .registerWorker { id := ⟨4⟩, tenantId := ⟨3⟩, dispatcherId := ⟨20⟩ },
  .registerWorker { id := ⟨5⟩, tenantId := ⟨3⟩, dispatcherId := ⟨20⟩ },
  .registerWorker { id := ⟨6⟩, tenantId := ⟨9⟩, dispatcherId := ⟨21⟩ },
  .triggerRuns {} ⟨0⟩ ⟨3⟩ [mailFor "ann" ⟨7⟩, mailFor "ann" ⟨8⟩, mailFor "ann" ⟨9⟩, mailFor "ann" ⟨10⟩],
  .assign ⟨0⟩ ⟨3⟩ [⟨⟨1, 0⟩, ⟨4⟩⟩, ⟨⟨2, 0⟩, ⟨5⟩⟩, ⟨⟨3, 0⟩, ⟨6⟩⟩]]

def staffed : Store :=
  match Store.obeyAll {} staffing with
  | .ok (_, s) => s
  | .error _ => {}

theorem staffed_reachable : Reachable [] staffed := (Reachable.empty 3).all staffing rfl

/-- All four shall be cancelled, and an attempt of the first that is yet to come. -/
def callOff : List CancelledPayload :=
  [⟨1, 0, true, .cancelled, none⟩, ⟨2, 0, true, .cancelled, none⟩, ⟨3, 0, true, .cancelled, none⟩,
    ⟨4, 0, true, .cancelled, none⟩, ⟨1, 1, true, .cancelled, none⟩]

theorem callOff_decoded : decodePayloads CancelledPayload (callOff.map Codec.toBytes) = callOff :=
  decodePayloads_toBytes fun p hp => by
    have fits : ∀ p ∈ callOff, (-9223372036854775808 ≤ p.taskId ∧ p.taskId ≤ 9223372036854775807) ∧
      (-2147483648 ≤ p.retryCount ∧ p.retryCount ≤ 2147483647) := by decide
    exact CancelledPayload.ofBytes?_eq (fits p hp).1 (fits p hp).2

theorem staffed_tasks : (staffed.tasks.map fun t => (t.attempt, t.workerId)) =
    [(⟨1, 0⟩, some ⟨4⟩), (⟨2, 0⟩, some ⟨5⟩), (⟨3, 0⟩, some ⟨6⟩), (⟨4, 0⟩, none)] := rfl

theorem callOff_due {d : DispatcherId} {x : StopPayload} :
    Request.Due staffed (staffed.cancel ⟨3⟩ (callOff.map (·.attempt))).2 ⟨3⟩ callOff d x ↔
      d = ⟨20⟩ ∧ x ∈ [⟨1, ⟨4⟩, 0⟩, ⟨2, ⟨5⟩, 0⟩] := by
  constructor
  · rintro ⟨-, ⟨t, ht, attempt, given⟩, ⟨w, found, owner, rfl⟩, -⟩
    have listed : (x.attempt, some x.workerId) ∈ staffed.tasks.map fun t => (t.attempt, t.workerId) := by
      rw [← attempt, ← given]
      exact List.mem_map_of_mem ht
    obtain ⟨taskId, workerId, retryCount⟩ := x
    simp only [staffed_tasks, StopPayload.attempt, List.mem_cons, Prod.mk.injEq, Attempt.mk.injEq,
      Option.some.injEq, List.not_mem_nil, or_false, reduceCtorEq, and_false] at listed
    rcases listed with ⟨⟨rfl, rfl⟩, rfl⟩ | ⟨⟨rfl, rfl⟩, rfl⟩ | ⟨⟨rfl, rfl⟩, rfl⟩
    · cases found
      exact ⟨rfl, by decide⟩
    · cases found
      exact ⟨rfl, by decide⟩
    · -- The third worker is one of another tenant.
      cases found
      cases owner
  · rintro ⟨rfl, listed⟩
    have became : ∀ x ∈ ([⟨1, ⟨4⟩, 0⟩, ⟨2, ⟨5⟩, 0⟩] : List StopPayload),
        x.attempt ∈ callOff.map (·.attempt) ∧ ∃ t ∈ staffed.tasks,
          t.tenantId = ⟨3⟩ ∧ t.attempt = x.attempt ∧ t.state.isTerminal = false := by decide +kernel
    refine ⟨(cancel_became staffed_reachable.sound).mpr (became x listed), ?_, ?_, ?_⟩
    all_goals
      revert x
      decide +kernel

/-- One message tells the dispatcher to stop both attempts, and no other dispatcher is told anything. -/
theorem callOff_stopped : ∃ e' told, ({ store := .sound staffed } : Engine).handleTasks ⟨0⟩ ⟨3⟩
      MessageKind.taskCancelled.name (callOff.map Codec.toBytes) = (.ok (), e') ∧
    e'.bus.published (.dispatcher ⟨20⟩) = [Message.stops ⟨3⟩ told] ∧
    told.Perm [⟨1, ⟨4⟩, 0⟩, ⟨2, ⟨5⟩, 0⟩] ∧
    ∀ d, (QueueName.dispatcher d).Fits → d ≠ ⟨20⟩ → e'.bus.published (.dispatcher d) = [] := by
  have known : ∀ w ∈ staffed.workers, w.dispatcherId.value < 2 ^ 128 := by decide +kernel
  have distinct : ((decodePayloads CancelledPayload (callOff.map Codec.toBytes)).map (·.attempt)).Nodup := by
    rw [callOff_decoded]
    decide
  obtain ⟨-, ended, -⟩ := handleTasks_cancel (e := { store := .sound staffed }) ⟨0⟩ ⟨3⟩
    (callOff.map Codec.toBytes) rfl
  obtain ⟨e', s', told, handled, store, -, published, due, once, -⟩ := cancelled_stopped
    (e := { store := .sound staffed }) staffed_reachable rfl rfl known distinct ⟨0⟩ ⟨3⟩
  rw [handled, callOff_decoded] at ended
  cases store.symm.trans ended
  have told_iff : ∀ d x, x ∈ told d ↔ d = ⟨20⟩ ∧ x ∈ [⟨1, ⟨4⟩, 0⟩, ⟨2, ⟨5⟩, 0⟩] := by
    intro d x
    rw [due, callOff_decoded, callOff_due]
  have both : (told ⟨20⟩).Perm [⟨1, ⟨4⟩, 0⟩, ⟨2, ⟨5⟩, 0⟩] :=
    (List.perm_ext_iff_of_nodup (once _) (by decide)).mpr fun x => (told_iff _ x).trans (and_iff_right rfl)
  refine ⟨e', told ⟨20⟩, handled, ?_, both, fun d fits other => ?_⟩
  · have some : (told ⟨20⟩).isEmpty = false := by rw [both.isEmpty_eq]; rfl
    rw [published ⟨20⟩ (show 20 < 2 ^ 128 by decide), some]
    rfl
  · have none : told d = [] :=
      List.eq_nil_iff_forall_not_mem.mpr fun x hx => other ((told_iff d x).mp hx).1
    rw [published d fits, none]
    rfl

end Engine

end WorkflowEngine
