import WorkflowEngine.Proofs.Store.Tenants
import WorkflowEngine.Proofs.System.Telling

/-!
A send that is refused does not touch anything else. A call comes to the same result and the same store
whatever the bus refuses, every queue that accepts messages gets those that it would have got anyway,
and each send that is refused is counted once. All of it comes from one fact: for a tenant that is
registered every posting has an address, and so what a call sends is one list of messages that the bus
takes or refuses one by one.
-/

namespace WorkflowEngine

/-! ### Sending a list of messages -/

namespace Bus

variable {b : Bus} {posts : List Post} {name : String}

def sendAll (b : Bus) (posts : List Post) : Bus :=
  posts.foldl (fun b p => (b.send p.queue p.message).2) b

/-- The messages that go to the queue of a name. -/
def addressed (posts : List Post) (name : String) : List Message :=
  (posts.filter (·.queue.text == name)).map (·.message)

/-- A queue that has accepted messages; without any it need not be there. -/
def accepted (name : String) (q? : Option Queue) (ms : List Message) : Option Queue :=
  ms.foldl (fun q? m => some ((q?.getD { name }).accept m)) q?

theorem send_queue? (b : Bus) (q : QueueName) (m : Message) (name : String) :
    (b.send q m).2.queue? name =
      if b.isBlocked q.text = false ∧ name = q.text then
        some (((b.queue? q.text).getD { name := q.text }).accept m)
      else b.queue? name := by
  unfold send
  by_cases refused : b.isBlocked q.text = true
  · rw [if_pos refused, if_neg fun both => by rw [refused] at both; cases both.1]
    rfl
  · rw [if_neg refused]
    simp only [eq_false_of_ne_true refused, true_and]
    exact queue?_update fun q => (q.accept_record m).1

theorem send_result (b : Bus) (q : QueueName) (m : Message) :
    (b.send q m).1 = if b.isBlocked q.text then
      .error (.transport s!"injected failure for queue: {q.text}") else .ok () := by
  simp only [send]
  split <;> rfl

theorem send_rejected (b : Bus) (q : QueueName) (m : Message) :
    (b.send q m).2.rejected = b.rejected ++ if b.isBlocked q.text then [q.text] else [] := by
  simp only [send]
  split
  · rfl
  · simp only [update, List.append_nil]
    split <;> rfl

theorem isBlocked_congr {b' : Bus} (same : b'.blocked = b.blocked) (name : String) :
    b'.isBlocked name = b.isBlocked name := by
  rw [isBlocked, isBlocked, same]

/-- A queue whose sends are refused stays as it is; any other accepts the messages addressed to it. -/
theorem sendAll_queue? (b : Bus) (posts : List Post) (name : String) :
    (b.sendAll posts).queue? name =
      if b.isBlocked name then b.queue? name
      else accepted name (b.queue? name) (addressed posts name) := by
  induction posts generalizing b with
  | nil => exact (ite_self _).symm
  | cons p rest ih =>
    change ((b.send p.queue p.message).2.sendAll rest).queue? name = _
    rw [ih, isBlocked_congr (b.send_blocked p.queue p.message), send_queue?]
    by_cases here : p.queue.text = name
    · subst here
      have mine : addressed (p :: rest) p.queue.text = p.message :: addressed rest p.queue.text := by
        simp [addressed]
      cases refused : b.isBlocked p.queue.text with
      | true => simp
      | false =>
        simp only [Bool.false_eq_true, if_false, and_self, if_true, mine]
        rfl
    · have other : addressed (p :: rest) name = addressed rest name := by simp [addressed, here]
      have apart : ¬(b.isBlocked p.queue.text = false ∧ name = p.queue.text) :=
        fun both => here both.2.symm
      rw [if_neg apart, other]

/-- The refused sends are noted in order. -/
theorem sendAll_rejected (b : Bus) (posts : List Post) :
    (b.sendAll posts).rejected =
      b.rejected ++ (posts.map (·.queue.text)).filter b.isBlocked := by
  induction posts generalizing b with
  | nil => exact (List.append_nil _).symm
  | cons p rest ih =>
    change ((b.send p.queue p.message).2.sendAll rest).rejected = _
    have same : (b.send p.queue p.message).2.isBlocked = b.isBlocked :=
      funext (isBlocked_congr (b.send_blocked p.queue p.message))
    rw [ih, same, send_rejected, List.append_assoc, List.map_cons, List.filter_cons]
    split <;> rfl

theorem accepted_published (q? : Option Queue) (ms : List Message) :
    (((accepted name q? ms).map (·.published)).getD []) =
      ((q?.map (·.published)).getD []) ++ ms := by
  induction ms generalizing q? with
  | nil => exact (List.append_nil _).symm
  | cons m rest ih =>
    refine (ih _).trans ?_
    rw [Option.map_some, Option.getD_some, (Queue.accept_record _ m).2, List.append_assoc]
    cases q? <;> rfl

end Bus

/-! ### Counters -/

namespace Metrics

variable {κ : Type} [DecidableEq κ] {c c' : Counter} {n : Nat}

theorem bump_find (key k : κ) (n : Nat) (l : List (κ × Nat)) :
    (((bump key n l).find? (·.1 == k)).map (·.2)).getD 0 =
      ((l.find? (·.1 == k)).map (·.2)).getD 0 + if key = k then n else 0 := by
  induction l with
  | nil => by_cases same : key = k <;> simp [bump, same]
  | cons p rest ih =>
    obtain ⟨k', m⟩ := p
    unfold bump
    by_cases here : k' = key
    · by_cases same : key = k <;> simp [here, same]
    · rw [if_neg here, List.find?_cons, List.find?_cons]
      by_cases mine : k' = k
      · have other : key ≠ k := fun same => here (mine.trans same.symm)
        simp [mine, other]
      · have apart : ((k', m).1 == k) = false := by simpa using mine
        rw [apart]
        exact ih

theorem count_add (m : Metrics) (c c' : Counter) (n : Nat) :
    (m.add c n).count c' = m.count c' + if c = c' then n else 0 := by
  unfold add
  split
  · rename_i zero
    rw [zero, ite_self, Nat.add_zero]
  · exact bump_find c c' n m.counts

theorem count_addAll {counts : List (Counter × Nat)} (m : Metrics) (other : ∀ p ∈ counts, p.1 ≠ c) :
    (m.addAll counts).count c = m.count c := by
  induction counts generalizing m with
  | nil => rfl
  | cons p rest ih =>
    obtain ⟨first, later⟩ := List.forall_mem_cons.mp other
    refine (ih (m.add p.1 p.2) later).trans ?_
    rw [count_add, if_neg first, Nat.add_zero]

end Metrics

/-! ### Postings that have an address -/

section Addresses

open Fallible

variable {s s' : Store} {tenant : TenantId} {now : Instant} {ids : IdSource} {ps qs : List Posting}

/-- Every posting is a message with an address. -/
def Addressed (ps : List Posting) : Prop := ∀ p ∈ ps, ∃ post, p = .ok post

/-- Nothing is counted as a send that failed. -/
def Unfailed (counts : List (Counter × Nat)) : Prop := ∀ p ∈ counts, ∀ cause, p.1 ≠ .sendFailures cause

def Store.Knows (s : Store) (tenant : TenantId) : Prop := (s.tenant? tenant).isSome

theorem Store.Knows.mono (known : s.Knows tenant) (same : s'.tenants = s.tenants) : s'.Knows tenant := by
  unfold Store.Knows Store.tenant? at *
  rwa [same]

theorem Addressed.nil : Addressed [] := fun _ h => absurd h List.not_mem_nil

theorem Addressed.append (first : Addressed ps) (second : Addressed qs) : Addressed (ps ++ qs) :=
  fun p h => (List.mem_append.mp h).elim (first p) (second p)

theorem Addressed.posts (addressed : Addressed ps) : ∃ posts : List Post, ps = posts.map .ok := by
  induction ps with
  | nil => exact ⟨[], rfl⟩
  | cons p rest ih =>
    obtain ⟨⟨post, rfl⟩, later⟩ := List.forall_mem_cons.mp addressed
    obtain ⟨posts, rfl⟩ := ih later
    exact ⟨post :: posts, rfl⟩

theorem addressed_ofPayloads {α : Type} (queue : QueueName) (message : List α → Message)
    (payloads : List α) : Addressed (Posting.ofPayloads queue message payloads) := by
  cases payloads with
  | nil => exact .nil
  | cons p rest => exact fun x h => ⟨_, List.mem_singleton.mp h⟩

/-- A notice to the scheduler of a tenant that is registered. -/
theorem addressed_notice (known : s.Knows tenant) (message : List NoticePayload → Message)
    (payloads : List NoticePayload) : Addressed (Posting.notice s tenant message payloads) := by
  unfold Posting.notice
  split
  · exact .nil
  · split
    · rename_i unknown
      rw [Store.Knows, unknown] at known
      cases known
    · split
      · exact .nil
      · exact fun x h => ⟨_, List.mem_singleton.mp h⟩

theorem addressed_stops (s : Store) (tenant : TenantId) (attempts : List (Attempt × WorkerId)) :
    Addressed (Posting.stops s tenant attempts) := by
  intro p h
  obtain ⟨x, _, rfl⟩ := List.mem_map.mp h
  exact ⟨_, rfl⟩

theorem addressed_ofCreation {c : Creation} (known : c.store.Knows tenant) :
    Addressed (Request.ofCreation c now tenant).postings :=
  ((((addressed_ofPayloads _ _ _).append (addressed_ofPayloads _ _ _)).append
    (addressed_notice known _ _)).append (addressed_ofPayloads _ _ _)).append
      (addressed_ofPayloads _ _ _)

theorem failAndAnnounce_sends {fs : List Failure} {result : FailureResult} {counts : List (Counter × Nat)}
    (known : s.Knows tenant) (done : failAndAnnounce s now tenant fs = .ok (result, s', ps, counts)) :
    Addressed ps ∧ Unfailed counts := by
  have known' : s'.Knows tenant := known.mono (failAndAnnounce_tenants done)
  obtain ⟨⟨r, s₁⟩, _, done⟩ := bind_ok done
  cases done
  refine ⟨(((addressed_ofPayloads _ _ _).append (addressed_ofPayloads _ _ _)).append
    (addressed_notice known' _ _)).append (addressed_notice known' _ _), ?_⟩
  simp [Unfailed]

theorem serve_sends {r : Request} {x : Effect} (known : s.Knows tenant)
    (served : Request.serve s ids now tenant r = .ok x) : Addressed x.postings ∧ Unfailed x.counts := by
  have known' : x.store.Knows tenant := known.mono (serve_tenants served)
  cases r with
  | complete ps =>
    cases served
    exact ⟨((addressed_ofPayloads _ _ _).append (addressed_ofPayloads _ _ _)).append
      (addressed_notice known' _ _), by simp [Unfailed, Request.serveComplete]⟩
  | cancel ps =>
    cases served
    exact ⟨(((addressed_stops _ _ _).append (addressed_ofPayloads _ _ _)).append
      (addressed_ofPayloads _ _ _)).append (addressed_notice known' _ _),
      by simp [Unfailed, Request.serveCancel]⟩
  | fail ps =>
    obtain ⟨⟨result, s₁, postings, counts⟩, failed, served⟩ := bind_ok served
    cases served
    exact failAndAnnounce_sends known failed
  | userEvents ps =>
    obtain ⟨c, _, served⟩ := bind_ok served
    cases served
    exact ⟨addressed_ofCreation known', by simp [Unfailed, Request.ofCreation]⟩
  | trigger ps =>
    obtain ⟨c, _, served⟩ := bind_ok served
    cases served
    exact ⟨addressed_ofCreation known', by simp [Unfailed, Request.ofCreation]⟩
  | internalEvents ps =>
    obtain ⟨c, _, served⟩ := bind_ok served
    cases served
    exact ⟨addressed_ofCreation known', by simp [Unfailed, Request.ofCreation]⟩

theorem sweep_sends {kind : Sweep} {limit : Nat} {x : SweepEffect} (known : s.Knows tenant)
    (swept : sweep kind s ids now tenant limit = .ok x) :
    Addressed x.effect.postings ∧ Unfailed x.effect.counts := by
  have swept_only : ∀ n, Unfailed [(.swept kind, n)] := by simp [Unfailed]
  have joined : ∀ {cs ds : List (Counter × Nat)}, Unfailed cs → Unfailed ds → Unfailed (cs ++ ds) :=
    fun first second p h => (List.mem_append.mp h).elim (first p) (second p)
  cases kind with
  | timeout =>
    change sweepTimeouts s ids now tenant limit = _ at swept
    unfold sweepTimeouts at swept
    split at swept
    · cases swept
      exact ⟨.nil, by simp [Unfailed]⟩
    · obtain ⟨⟨result, s₁, postings, counts⟩, failed, swept⟩ := bind_ok swept
      cases swept
      obtain ⟨sends, counted⟩ := failAndAnnounce_sends known failed
      exact ⟨(sends.append (addressed_ofPayloads _ _ _)).append (addressed_stops _ _ _),
        joined counted (swept_only _)⟩
  | reassign =>
    change sweepStranded s ids now tenant limit = _ at swept
    unfold sweepStranded at swept
    split at swept
    · cases swept
      exact ⟨.nil, by simp [Unfailed]⟩
    · obtain ⟨⟨result, s₁, postings, counts⟩, failed, swept⟩ := bind_ok swept
      cases swept
      obtain ⟨sends, counted⟩ := failAndAnnounce_sends known failed
      exact ⟨sends.append (addressed_ofPayloads _ _ _), joined counted (swept_only _)⟩

end Addresses

namespace Engine

variable {e : Engine} {tenant : TenantId} {now : Instant} {cause : String}

/-- The engine with a bus that refuses nothing. -/
def healthy (e : Engine) : Engine := { e with bus := { e.bus with blocked := [] } }

/-- The messages go to the bus one after the other, and each that is refused gives a fault. -/
theorem postAll_posts (e : Engine) (posts : List Post) :
    (e.postAll (posts.map .ok)).2 = { e with bus := e.bus.sendAll posts } ∧
      (e.postAll (posts.map .ok)).1.length =
        ((posts.map (·.queue.text)).filter e.bus.isBlocked).length := by
  induction posts generalizing e with
  | nil => exact ⟨rfl, rfl⟩
  | cons p rest ih =>
    obtain ⟨engine, faults⟩ := ih { e with bus := (e.bus.send p.queue p.message).2 }
    have same : (e.bus.send p.queue p.message).2.isBlocked = e.bus.isBlocked :=
      funext (Bus.isBlocked_congr (e.bus.send_blocked p.queue p.message))
    refine ⟨engine, ?_⟩
    rw [same] at faults
    rw [List.map_cons, List.map_cons, List.filter_cons]
    by_cases refused : e.bus.isBlocked p.queue.text = true
    · simp only [postAll, post, send, Bus.send_result, refused, if_true, List.length_cons, faults]
    · simp only [postAll, post, send, Bus.send_result, refused, if_false, Bool.false_eq_true, faults]

/-- What a call leaves behind, next to what it leaves behind when no send is refused. -/
structure Isolated {α : Type} (e : Engine) (cause : String) (call whole : Except Fault α × Engine) :
    Prop where
  result : call.1 = whole.1
  store : call.2.store = whole.2.store
  /-- A queue that accepts messages has got the same, and passed the same on. -/
  accepted : ∀ name, e.bus.isBlocked name = false → call.2.bus.queue? name = whole.2.bus.queue? name
  refused : ∀ name, e.bus.isBlocked name = true → call.2.bus.queue? name = e.bus.queue? name
  counts : ∀ c, c ≠ .sendFailures cause → call.2.metrics.count c = whole.2.metrics.count c
  /-- The sends that were refused are those that would have reached the queues that refuse them. -/
  failures : ∃ names : List String, call.2.bus.rejected = e.bus.rejected ++ names ∧
    call.2.metrics.count (.sendFailures cause) =
      e.metrics.count (.sendFailures cause) + names.length ∧
    (∀ name ∈ names, e.bus.isBlocked name = true) ∧
    ∀ q : QueueName, e.bus.isBlocked q.text = true →
      (whole.2.bus.published q).length = (e.bus.published q).length + names.count q.text
  whole : whole.2.bus.rejected = e.bus.rejected ∧
    whole.2.metrics.count (.sendFailures cause) = e.metrics.count (.sendFailures cause)

/-- A call that sends nothing. -/
theorem Isolated.silent {α : Type} {result : Except Fault α} {e₁ e₂ : Engine}
    (store : e₁.store = e₂.store) (bus₁ : e₁.bus = e.bus) (bus₂ : e₂.bus = e.healthy.bus)
    (metrics₁ : e₁.metrics = e.metrics) (metrics₂ : e₂.metrics = e.metrics) :
    Isolated e cause (result, e₁) (result, e₂) := by
  refine ⟨rfl, store, fun name _ => ?_, fun name _ => by rw [bus₁], fun c _ => by rw [metrics₁, metrics₂],
    ⟨[], by rw [bus₁, List.append_nil], by rw [metrics₁]; rfl, by simp, fun q _ => ?_⟩, ?_, by rw [metrics₂]⟩
  · rw [bus₁, bus₂]
    rfl
  · rw [bus₂]
    rfl
  · rw [bus₂]
    rfl

theorem healthy_isBlocked (e : Engine) (name : String) : e.healthy.bus.isBlocked name = false := rfl

theorem perform_posts (e : Engine) (cause : String) {x : Effect} {posts : List Post} (sends : x.postings = posts.map .ok) :
    (e.perform cause x).store = .sound x.store ∧ (e.perform cause x).bus = e.bus.sendAll posts ∧
      (e.perform cause x).metrics = (e.metrics.addAll x.counts).add (.sendFailures cause)
        ((posts.map (·.queue.text)).filter e.bus.isBlocked).length := by
  obtain ⟨engine, faults⟩ := postAll_posts { e with
    store := .sound x.store, ids := x.ids, metrics := e.metrics.addAll x.counts } posts
  unfold perform
  simp only [sends]
  rw [engine, faults]
  exact ⟨rfl, rfl, rfl⟩

theorem perform_isolated {α : Type} {result : Except Fault α} {x : Effect} {e₁ e₂ : Engine}
    (bus₁ : e₁.bus = e.bus) (bus₂ : e₂.bus = e.healthy.bus) (metrics₁ : e₁.metrics = e.metrics)
    (metrics₂ : e₂.metrics = e.metrics) (addressed : Addressed x.postings) (unfailed : Unfailed x.counts) :
    Isolated e cause (result, e₁.perform cause x) (result, e₂.perform cause x) := by
  obtain ⟨posts, sends⟩ := addressed.posts
  obtain ⟨store₁, sent₁, counted₁⟩ := perform_posts e₁ cause sends
  obtain ⟨store₂, sent₂, counted₂⟩ := perform_posts e₂ cause sends
  rw [bus₁] at sent₁ counted₁
  rw [bus₂] at sent₂ counted₂
  rw [metrics₁] at counted₁
  rw [metrics₂] at counted₂
  have none : (posts.map (·.queue.text)).filter e.healthy.bus.isBlocked = [] :=
    List.filter_eq_nil_iff.mpr fun _ _ => by simp [healthy_isBlocked]
  have own : ((e.metrics.addAll x.counts)).count (.sendFailures cause) =
      e.metrics.count (.sendFailures cause) :=
    Metrics.count_addAll _ fun p hp => unfailed p hp cause
  refine ⟨rfl, store₁.trans store₂.symm, ?_, ?_, ?_,
    ⟨(posts.map (·.queue.text)).filter e.bus.isBlocked, ?_, ?_, ?_, ?_⟩, ?_, ?_⟩
  · intro name open_
    rw [sent₁, sent₂, Bus.sendAll_queue?, Bus.sendAll_queue?, open_, healthy_isBlocked]
    rfl
  · intro name closed
    rw [sent₁, Bus.sendAll_queue?, if_pos closed]
  · intro c other
    rw [counted₁, counted₂, Metrics.count_add, Metrics.count_add, if_neg other.symm, if_neg other.symm]
  · rw [sent₁, Bus.sendAll_rejected]
  · rw [counted₁, Metrics.count_add, if_pos rfl, own]
  · exact fun name listed => (List.mem_filter.mp listed).2
  · intro q closed
    have got := @Bus.accepted_published q.text (e.healthy.bus.queue? q.text)
      (Bus.addressed posts q.text)
    rw [Bus.published, sent₂, Bus.sendAll_queue?, healthy_isBlocked, if_neg Bool.false_ne_true, got,
      List.length_append, List.count_filter closed]
    congr 1
    rw [Bus.addressed, List.length_map, List.count, List.countP_map, List.countP_eq_length_filter]
    rfl
  · rw [sent₂, Bus.sendAll_rejected, none]
    exact List.append_nil _
  · rw [counted₂, Metrics.count_add, none, own]
    simp

/-- Recovering from a panic and counting the message depend on the result only. -/
theorem Isolated.counted {call whole : Except Fault Unit × Engine} (isolated : Isolated e cause call whole)
    (kind : MessageKind) :
    Isolated e cause
      ((call.2.recovered cause call.1).1,
        (call.2.recovered cause call.1).2.countHandled kind (call.2.recovered cause call.1).1)
      ((whole.2.recovered cause whole.1).1,
        (whole.2.recovered cause whole.1).2.countHandled kind (whole.2.recovered cause whole.1).1) := by
  obtain ⟨result, store, accepted, refused, counts, ⟨names, noted, counted, closed, missing⟩, all⟩ := isolated
  obtain ⟨r, e₁⟩ := call
  obtain ⟨r', e₂⟩ := whole
  cases result
  have handled : ∀ (ok : Bool) (c : Counter) (m : Metrics),
      (m.add (.messagesHandled kind ok) 1).count c =
        m.count c + if .messagesHandled kind ok = c then 1 else 0 := fun ok c m => m.count_add _ c 1
  refine ⟨rfl, store, accepted, refused, fun c other => ?_, ⟨names, noted, ?_, closed, missing⟩, all.1, ?_⟩
  · simp only [countHandled, count, handled]
    exact congrArg (· + _) (counts c other)
  · simp only [countHandled, count, handled]
    exact counted
  · simp only [countHandled, count, handled]
    exact all.2

section Calls

variable (registered : ∀ s, e.store = .sound s → s.Knows tenant)
include registered

theorem serve_isolated (now : Instant) (r : Request) :
    Isolated e cause (e.serve now tenant cause r) (e.healthy.serve now tenant cause r) := by
  have same : e.healthy.store = e.store ∧ e.healthy.ids = e.ids := ⟨rfl, rfl⟩
  simp only [serve, same]
  split
  · exact .silent rfl rfl rfl rfl rfl
  · split
    · rename_i x done
      obtain ⟨s, got, served⟩ := Fallible.bind_ok done
      obtain ⟨addressed, unfailed⟩ := serve_sends (registered s (Guarded.get_sound got)) served
      exact perform_isolated rfl rfl rfl rfl addressed unfailed
    · exact .silent rfl rfl rfl rfl rfl

theorem sweepOnce_isolated (now : Instant) (kind : Sweep) :
    Isolated e kind.name (e.sweepOnce now kind tenant) (e.healthy.sweepOnce now kind tenant) := by
  have same : e.healthy.store = e.store ∧ e.healthy.ids = e.ids ∧ e.healthy.settings = e.settings :=
    ⟨rfl, rfl, rfl⟩
  simp only [sweepOnce, same]
  split
  · rename_i x done
    obtain ⟨s, got, swept⟩ := Fallible.bind_ok done
    obtain ⟨addressed, unfailed⟩ := sweep_sends (registered s (Guarded.get_sound got)) swept
    exact perform_isolated rfl rfl rfl rfl addressed unfailed
  · exact .silent rfl rfl rfl rfl rfl

theorem handleTasks_isolated (now : Instant) (kindName : String) (payloads : List ByteArray) :
    Isolated e kindName (e.handleTasks now tenant kindName payloads)
      (e.healthy.handleTasks now tenant kindName payloads) := by
  unfold handleTasks
  split
  · exact .silent rfl rfl rfl rfl rfl
  · rename_i kind parsed
    obtain rfl := MessageKind.parse_name parsed
    cases asked : Request.ofPayloads kind payloads with
    | error f =>
      have silent : Isolated e kind.name ((.error f : Except Fault Unit), e) (.error f, e.healthy) :=
        .silent rfl rfl rfl rfl rfl
      exact silent.counted kind
    | ok r => exact (serve_isolated registered now r).counted kind

end Calls

/-- Whatever queues refuse messages, a message that is handled and a pass of a sweep come to the same
result and leave the same store as if none did. Every other queue gets the same messages, those that
refuse get none, and the send failures of the cause grow by the number of sends that were refused. -/
theorem sends_isolated (e : Engine) (now : Instant) (tenant : TenantId)
    (registered : ∀ s, e.store = .sound s → (s.tenant? tenant).isSome) :
    (∀ kindName payloads, Isolated e kindName (e.handleTasks now tenant kindName payloads)
      (e.healthy.handleTasks now tenant kindName payloads)) ∧
    ∀ kind : Sweep, Isolated e kind.name (e.sweepOnce now kind tenant)
      (e.healthy.sweepOnce now kind tenant) :=
  ⟨fun kindName payloads => handleTasks_isolated registered now kindName payloads,
    fun kind => sweepOnce_isolated registered now kind⟩

/-- A task has waited too long, and the read model cannot be told. -/
def overdue : Engine where
  store := .sound {
    internalRetries := 0
    tenants := [⟨default, some "p"⟩]
    tasks := [{ (default : Task) with id := 1, scheduleTimeoutAt := some .epoch }] }
  bus := { blocked := [QueueName.readModel.text] }

/-- Both messages to the read model are refused, and the engine itself hears of the failure. -/
theorem overdue_isolated :
    (overdue.sweepOnce .epoch .timeout default).1 = (overdue.healthy.sweepOnce .epoch .timeout default).1 ∧
    (overdue.sweepOnce .epoch .timeout default).2.bus.queue? QueueName.tasks.text =
      (overdue.healthy.sweepOnce .epoch .timeout default).2.bus.queue? QueueName.tasks.text ∧
    ((overdue.healthy.sweepOnce .epoch .timeout default).2.bus.published .tasks).length = 1 ∧
    (overdue.sweepOnce .epoch .timeout default).2.bus.queue? QueueName.readModel.text = none ∧
    (overdue.sweepOnce .epoch .timeout default).2.metrics.count (.sendFailures "timeout") = 2 := by
  have registered : ∀ s, overdue.store = .sound s → (s.tenant? default).isSome := by
    intro s h
    cases h
    rfl
  have isolated := (sends_isolated overdue .epoch default registered).2 .timeout
  refine ⟨isolated.result, isolated.accepted _ (by decide +kernel), ?_, ?_, ?_⟩
  · rfl
  · exact isolated.refused _ (by decide +kernel)
  · decide +kernel

end Engine

end WorkflowEngine
