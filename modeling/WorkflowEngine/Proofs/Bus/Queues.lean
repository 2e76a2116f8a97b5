import Mathlib.Data.List.Nodup
import WorkflowEngine.Proofs.Bus.Broker

/-!
The queues of a bus, one by one. What a send, a subscription or a subscriber does to a queue is written
as one equation for each thing the queue holds: what waits, how much was dropped, and what each
subscriber still has to receive. On the bus such a step changes the queue it names, and no other.
-/

namespace WorkflowEngine

/-- What becomes of a message when it is sent. -/
inductive Fate where
  /-- It waits for a subscriber. -/
  | waiting
  /-- It is dropped, as nobody listens. -/
  | expired
  | handed (id : Nat)
  deriving DecidableEq, Repr

namespace Queue

variable {k : Queue} {m : Message} {id : Nat} {f : Subscriber → Subscriber}

/-- What a subscriber has not received yet. -/
def inboxOf (k : Queue) (id : Nat) : List Message :=
  ((k.subscribers.find? (·.id == id)).map (·.inbox)).getD []

/-- Subscribers have numbers of their own, those who have left have left nothing, and nothing waits
while there is one. -/
structure Sound (k : Queue) : Prop where
  ids : (k.subscribers.map (·.id)).Nodup
  closed : ∀ x ∈ k.subscribers, x.isOpen = false → x.inbox = []
  idle : k.pending ≠ [] → k.live = []

theorem sound_empty (name : String) : Sound { name } :=
  ⟨.nil, List.forall_mem_nil _, fun _ => rfl⟩

theorem find_subscriber (ids : (k.subscribers.map (·.id)).Nodup) {x : Subscriber}
    (hx : x ∈ k.subscribers) : k.subscribers.find? (·.id == x.id) = some x := by
  cases found : k.subscribers.find? (·.id == x.id) with
  | none => exact absurd (beq_self_eq_true x.id) (List.find?_eq_none.mp found x hx)
  | some y =>
    have same : y.id = x.id := by simpa using List.find?_some found
    rw [List.inj_on_of_nodup_map ids (List.mem_of_find?_eq_some found) hx same]

theorem inboxOf_eq (ids : (k.subscribers.map (·.id)).Nodup) {x : Subscriber} (hx : x ∈ k.subscribers) :
    k.inboxOf x.id = x.inbox := by
  rw [inboxOf, find_subscriber ids hx]
  rfl

theorem inboxOf_absent (absent : ∀ x ∈ k.subscribers, x.id ≠ id) : k.inboxOf id = [] := by
  have none : k.subscribers.find? (·.id == id) = none := by simpa using absent
  rw [inboxOf, none]
  rfl

/-- Nobody of that number is there. -/
def Left (k : Queue) (id : Nat) : Prop := ∀ x ∈ k.live, x.id ≠ id

theorem Sound.inboxOf_left (sound : k.Sound) (left : k.Left id) : k.inboxOf id = [] := by
  by_cases known : ∃ x ∈ k.subscribers, x.id = id
  · obtain ⟨x, hx, rfl⟩ := known
    rw [inboxOf_eq sound.ids hx]
    refine sound.closed x hx (Bool.eq_false_iff.mpr fun isOpen => ?_)
    exact left x (List.mem_filter.mpr ⟨hx, isOpen⟩) rfl
  · exact inboxOf_absent fun x hx same => known ⟨x, hx, same⟩

/-! ### Sending -/

/-- What becomes of a message that is sent to the queue now. -/
def fate (k : Queue) (m : Message) : Fate :=
  match k.live[k.turn % k.live.length]? with
  | some next => .handed next.id
  | none => if m.expires then .expired else .waiting

theorem fate_none (nobody : k.live = []) : k.fate m = if m.expires then .expired else .waiting := by
  rw [fate, nobody]
  rfl

theorem fate_some (somebody : k.live ≠ []) : ∃ x ∈ k.live, k.fate m = .handed x.id ∧
    k.live[k.turn % k.live.length]? = some x := by
  have bound := Nat.mod_lt k.turn (List.length_pos_iff.mpr somebody)
  have next := List.getElem?_eq_getElem bound
  refine ⟨_, List.getElem_mem bound, ?_, next⟩
  rw [fate, next]

theorem live_of_handed (handed : k.fate m = .handed id) : ∃ x ∈ k.live, x.id = id := by
  by_cases nobody : k.live = []
  · rw [fate_none nobody] at handed
    split at handed <;> cases handed
  · obtain ⟨x, hx, fate, -⟩ := fate_some (m := m) nobody
    cases fate.symm.trans handed
    exact ⟨x, hx, rfl⟩

theorem fate_expired : k.fate m = .expired ↔ m.expires = true ∧ k.live = [] := by
  by_cases nobody : k.live = []
  · rw [fate_none nobody]
    simp [nobody]
  · obtain ⟨x, -, fate, -⟩ := fate_some (m := m) nobody
    simp [fate, nobody]

theorem fate_waiting : k.fate m = .waiting ↔ m.expires = false ∧ k.live = [] := by
  by_cases nobody : k.live = []
  · rw [fate_none nobody]
    simp [nobody]
  · obtain ⟨x, -, fate, -⟩ := fate_some (m := m) nobody
    simp [fate, nobody]

/-- What a queue is once it has accepted a message. -/
theorem accept_eq (k : Queue) (m : Message) : k.accept m = { k with
    published := k.published ++ [m]
    subscribers := k.live.map fun x =>
      if k.fate m = .handed x.id then { x with inbox := x.inbox ++ [m] } else x
    turn := if k.live = [] then k.turn else k.turn + 1
    pending := k.pending ++ if k.fate m = .waiting then [m] else []
    expired := k.expired + if k.fate m = .expired then 1 else 0 } := by
  have same : ({ k with published := k.published ++ [m], subscribers := k.live } : Queue).live = k.live :=
    List.filter_filter.trans (List.filter_congr fun x _ => Bool.and_self _)
  simp only [accept, deliver?, same]
  -- with somebody there the turn falls on one of them, since the remainder is in bounds
  by_cases nobody : k.live = []
  · rw [nobody, fate_none nobody]
    cases m.expires <;> simp
  · obtain ⟨x, hx, fate, next⟩ := fate_some (m := m) nobody
    rw [next, fate]
    simp [nobody, eq_comm (a := x.id)]

/-- The subscribers afterwards are those who are there, with what they have to receive. -/
theorem mem_accept {y : Subscriber} : y ∈ (k.accept m).subscribers ↔ ∃ x ∈ k.live, y =
    if k.fate m = .handed x.id then { x with inbox := x.inbox ++ [m] } else x := by
  rw [accept_eq]
  exact List.mem_map.trans (exists_congr fun x => and_congr_right fun _ => eq_comm)

theorem Sound.accept (sound : k.Sound) (m : Message) : (k.accept m).Sound := by
  have ids : (k.accept m).subscribers.map (·.id) = k.live.map (·.id) := by
    rw [accept_eq, List.map_map]
    refine List.map_congr_left fun x _ => ?_
    simp only [Function.comp_apply, apply_ite Subscriber.id, ite_self]
  refine ⟨ids ▸ sound.ids.sublist (List.filter_sublist.map _), fun y hy => ?_, fun waits => ?_⟩
  · obtain ⟨x, hx, rfl⟩ := mem_accept.mp hy
    have isOpen : x.isOpen = true := (List.mem_filter.mp hx).2
    simp [apply_ite Subscriber.isOpen, isOpen]
  · have nobody : k.live = [] := by
      by_cases joins : k.fate m = .waiting
      · exact (fate_waiting.mp joins).2
      · rw [accept_eq, if_neg joins] at waits
        exact sound.idle (by simpa using waits)
    rw [accept_eq, nobody]
    rfl

theorem inboxOf_accept (sound : k.Sound) (m : Message) (id : Nat) :
    (k.accept m).inboxOf id = k.inboxOf id ++ if k.fate m = .handed id then [m] else [] := by
  by_cases here : ∃ x ∈ k.live, x.id = id
  · obtain ⟨x, hx, rfl⟩ := here
    have after := inboxOf_eq (sound.accept m).ids (mem_accept.mpr ⟨x, hx, rfl⟩)
    rw [apply_ite Subscriber.id, ite_self, apply_ite Subscriber.inbox] at after
    rw [after, inboxOf_eq sound.ids (List.mem_filter.mp hx).1]
    split <;> simp
  · have left : k.Left id := fun x hx same => here ⟨x, hx, same⟩
    have before := sound.inboxOf_left left
    rw [before, if_neg fun handed => here (live_of_handed handed), inboxOf_absent fun y hy same => ?_]
    · rfl
    · obtain ⟨x, hx, rfl⟩ := mem_accept.mp hy
      rw [apply_ite Subscriber.id, ite_self] at same
      exact here ⟨x, hx, same⟩

theorem Left.accept (left : k.Left id) (m : Message) : (k.accept m).Left id := by
  intro y hy
  obtain ⟨x, hx, rfl⟩ := mem_accept.mp (List.mem_filter.mp hy).1
  rw [apply_ite Subscriber.id, ite_self]
  exact left x hx

/-! ### Subscribers -/

theorem live_subscribe (k : Queue) (id : Nat) :
    (k.subscribe id).live = k.live ++ [{ id, inbox := k.pending }] := by
  simp [live, subscribe]

theorem Sound.subscribe (sound : k.Sound) (fresh : ∀ x ∈ k.subscribers, x.id ≠ id) :
    (k.subscribe id).Sound := by
  refine ⟨?_, fun x hx closed => ?_, fun waits => absurd rfl waits⟩
  · rw [Queue.subscribe, List.map_append, List.nodup_append]
    refine ⟨sound.ids, List.nodup_singleton _, fun i hi j hj => ?_⟩
    obtain ⟨x, hx, rfl⟩ := List.mem_map.mp hi
    rw [List.mem_singleton.mp hj]
    exact fresh x hx
  · rcases List.mem_append.mp hx with old | new
    · exact sound.closed x old closed
    · rw [List.mem_singleton.mp new] at closed
      cases closed

/-- Who subscribes gets what has waited, and the others keep what they have. -/
theorem inboxOf_subscribe (fresh : ∀ x ∈ k.subscribers, x.id ≠ id) (other : Nat) :
    (k.subscribe id).inboxOf other = if other = id then k.pending else k.inboxOf other := by
  rw [inboxOf, subscribe, List.find?_append]
  split
  · rename_i same
    subst same
    have none : k.subscribers.find? (·.id == other) = none := by simpa using fresh
    simp [none]
  · rename_i apart
    simp [Ne.symm apart, inboxOf]

theorem Left.subscribe {other : Nat} (left : k.Left id) (apart : other ≠ id) :
    (k.subscribe other).Left id := by
  intro x hx
  rw [live_subscribe] at hx
  rcases List.mem_append.mp hx with old | new
  · exact left x old
  · rw [List.mem_singleton.mp new]
    exact apart

/-- Something is done to one subscriber. -/
def updateSubscriber (k : Queue) (id : Nat) (f : Subscriber → Subscriber) : Queue :=
  { k with subscribers := k.subscribers.map fun x => if x.id == id then f x else x }

section

variable {g : List Message → List Message} (keeps : ∀ x, (f x).id = x.id)
include keeps

theorem inboxOf_updateSubscriber (inbox : ∀ x, (f x).inbox = g x.inbox) (nothing : g [] = [])
    (k : Queue) (id other : Nat) : (k.updateSubscriber id f).inboxOf other =
      if other = id then g (k.inboxOf id) else k.inboxOf other := by
  have ids (x : Subscriber) : (if x.id == id then f x else x).id = x.id := by
    rw [apply_ite Subscriber.id, keeps, ite_self]
  simp only [inboxOf, updateSubscriber, List.find?_map, Function.comp_def, ids]
  split
  · rename_i same
    subst same
    cases found : k.subscribers.find? (·.id == other) with
    | none => exact nothing.symm
    | some x =>
      have named : x.id = other := by simpa using List.find?_some found
      simp [named, inbox]
  · rename_i apart
    cases found : k.subscribers.find? (·.id == other) with
    | none => rfl
    | some x =>
      have named : x.id = other := by simpa using List.find?_some found
      simp [named, apart]

theorem Sound.updateSubscriber (sound : k.Sound) (opens : ∀ x, (f x).isOpen = true → x.isOpen = true)
    (closes : ∀ x, (f x).isOpen = false → (x.isOpen = false → x.inbox = []) → (f x).inbox = []) :
    (k.updateSubscriber id f).Sound := by
  refine ⟨?_, fun y hy closed => ?_, fun waits => ?_⟩
  · have ids : (k.updateSubscriber id f).subscribers.map (·.id) = k.subscribers.map (·.id) := by
      rw [Queue.updateSubscriber, List.map_map]
      refine List.map_congr_left fun x _ => ?_
      rw [Function.comp_apply, apply_ite Subscriber.id, keeps, ite_self]
    exact ids ▸ sound.ids
  · obtain ⟨x, hx, rfl⟩ := List.mem_map.mp hy
    by_cases mine : (x.id == id) = true
    · rw [if_pos mine] at closed ⊢
      exact closes x closed (sound.closed x hx)
    · rw [if_neg mine] at closed ⊢
      exact sound.closed x hx closed
  · refine List.filter_eq_nil_iff.mpr fun y hy isOpen => ?_
    obtain ⟨x, hx, rfl⟩ := List.mem_map.mp hy
    refine List.filter_eq_nil_iff.mp (sound.idle waits) x hx ?_
    split at isOpen
    · exact opens x isOpen
    · exact isOpen

theorem Left.updateSubscriber {other : Nat} (left : k.Left id)
    (opens : ∀ x, (f x).isOpen = true → x.isOpen = true) : (k.updateSubscriber other f).Left id := by
  intro y hy
  obtain ⟨hy, isOpen⟩ := List.mem_filter.mp hy
  obtain ⟨x, hx, rfl⟩ := List.mem_map.mp hy
  rw [apply_ite Subscriber.id, keeps, ite_self]
  refine left x (List.mem_filter.mpr ⟨hx, ?_⟩)
  split at isOpen
  · exact opens x isOpen
  · exact isOpen

/-- Whoever closes is not there any more. -/
theorem left_of_closes (closes : ∀ x, (f x).isOpen = false) : (k.updateSubscriber id f).Left id := by
  intro y hy
  obtain ⟨hy, isOpen⟩ := List.mem_filter.mp hy
  obtain ⟨x, hx, rfl⟩ := List.mem_map.mp hy
  rw [apply_ite Subscriber.id, keeps, ite_self]
  intro same
  rw [if_pos (beq_iff_eq.mpr same), closes] at isOpen
  cases isOpen

end

end Queue

/-! ### On the bus -/

namespace Bus

variable {b : Bus} {q r : QueueName} {m : Message} {id : Nat} {f : Subscriber → Subscriber}

/-- The queue of a name; one that was never used is empty. -/
def queueOf (b : Bus) (q : QueueName) : Queue := (b.queue? q.text).getD { name := q.text }

/-- Every queue is kept once, under the name of one that there may be. -/
structure Tidy (b : Bus) : Prop where
  once : (b.queues.map (·.name)).Nodup
  named : ∀ k ∈ b.queues, ∃ q : QueueName, q.Fits ∧ k.name = q.text

theorem Tidy.queueOf_mem (tidy : b.Tidy) {k : Queue} (hk : k ∈ b.queues) :
    ∃ q : QueueName, q.Fits ∧ b.queueOf q = k := by
  obtain ⟨q, fits, named⟩ := tidy.named k hk
  refine ⟨q, fits, ?_⟩
  rw [queueOf, queue?, ← named]
  cases found : b.queues.find? (·.name == k.name) with
  | none => exact absurd (beq_self_eq_true k.name) (List.find?_eq_none.mp found k hk)
  | some k' =>
    have same : k'.name = k.name := by simpa using List.find?_some found
    rw [Option.getD_some, List.inj_on_of_nodup_map tidy.once (List.mem_of_find?_eq_some found) hk same]

theorem queueOf_mem_or (b : Bus) (q : QueueName) :
    b.queueOf q ∈ b.queues ∨ b.queueOf q = { name := q.text } := by
  unfold queueOf queue?
  cases found : b.queues.find? (·.name == q.text) with
  | none => exact Or.inr rfl
  | some k => exact Or.inl (List.mem_of_find?_eq_some found)

theorem queueOf_update {f : Queue → Queue} (keeps : ∀ k, (f k).name = k.name) (fits : q.Fits)
    (fits' : r.Fits) : (b.update q.text f).queueOf r = if r = q then f (b.queueOf q) else b.queueOf r := by
  rw [queueOf, queue?_update keeps]
  by_cases same : r = q
  · rw [same, if_pos rfl, if_pos rfl]
    rfl
  · rw [if_neg fun equal => same (QueueName.text_injective fits' fits equal), if_neg same]
    rfl

theorem Tidy.update {f : Queue → Queue} (tidy : b.Tidy) (keeps : ∀ k, (f k).name = k.name)
    (fits : q.Fits) : (b.update q.text f).Tidy := by
  unfold Bus.update
  split
  · have names : (b.queues.map fun k => if k.name == q.text then f k else k).map (·.name) =
        b.queues.map (·.name) := by
      rw [List.map_map]
      refine List.map_congr_left fun k _ => ?_
      rw [Function.comp_apply, apply_ite Queue.name, keeps, ite_self]
    refine ⟨names ▸ tidy.once, fun k hk => ?_⟩
    obtain ⟨k', hk', rfl⟩ := List.mem_map.mp hk
    rw [apply_ite Queue.name, keeps, ite_self]
    exact tidy.named k' hk'
  · rename_i unknown
    refine ⟨?_, fun k hk => ?_⟩
    · rw [List.map_append, List.nodup_append]
      refine ⟨tidy.once, List.nodup_singleton _, fun name hn other ho => ?_⟩
      obtain ⟨k, hk, rfl⟩ := List.mem_map.mp hn
      rw [List.map_singleton, List.mem_singleton, keeps] at ho
      intro same
      exact unknown (List.any_eq_true.mpr ⟨k, hk, by rw [same, ho]; exact beq_self_eq_true _⟩)
    · rcases List.mem_append.mp hk with old | new
      · exact tidy.named k old
      · exact ⟨q, fits, by rw [List.mem_singleton.mp new, keeps]⟩

@[simp] theorem nextSubscriber_update (b : Bus) (name : String) (f : Queue → Queue) :
    (b.update name f).nextSubscriber = b.nextSubscriber := by
  unfold Bus.update
  split <;> rfl

theorem queueOf_updateSubscriber (b : Bus) (id : Nat) (f : Subscriber → Subscriber) (q : QueueName) :
    (b.updateSubscriber id f).queueOf q = (b.queueOf q).updateSubscriber id f := by
  unfold queueOf queue? updateSubscriber
  rw [List.find?_map]
  change (Option.map _ (b.queues.find? (·.name == q.text))).getD _ = _
  cases b.queues.find? (·.name == q.text) <;> rfl

theorem Tidy.updateSubscriber (tidy : b.Tidy) (id : Nat) (f : Subscriber → Subscriber) :
    (b.updateSubscriber id f).Tidy := by
  have names : (b.updateSubscriber id f).queues.map (·.name) = b.queues.map (·.name) := by
    simp [Bus.updateSubscriber]
  refine ⟨names ▸ tidy.once, fun k hk => ?_⟩
  obtain ⟨k', hk', rfl⟩ := List.mem_map.mp hk
  exact tidy.named k' hk'

theorem subscriber?_some {x : Subscriber} (tidy : b.Tidy) (found : b.subscriber? id = some x) :
    ∃ q : QueueName, q.Fits ∧ x ∈ (b.queueOf q).subscribers ∧ x.id = id := by
  obtain ⟨k, hk, found⟩ := List.exists_of_findSome?_eq_some found
  obtain ⟨q, fits, rfl⟩ := tidy.queueOf_mem hk
  exact ⟨q, fits, List.mem_of_find?_eq_some found, by simpa using List.find?_some found⟩

theorem subscriber?_none (none : b.subscriber? id = none) (q : QueueName) :
    ∀ x ∈ (b.queueOf q).subscribers, x.id ≠ id := by
  intro x hx
  rcases b.queueOf_mem_or q with listed | empty
  · have absent := List.findSome?_eq_none_iff.mp none _ listed
    simpa using List.find?_eq_none.mp absent x hx
  · rw [empty] at hx
    cases hx

/-- What a subscriber of any queue has not received yet. -/
def inbox (b : Bus) (id : Nat) : List Message := ((b.subscriber? id).map (·.inbox)).getD []

theorem updateSubscriber_absent (none : b.subscriber? id = none) : b.updateSubscriber id f = b := by
  have same : b.queues.map (·.updateSubscriber id f) = b.queues := by
    refine (List.map_congr_left fun k hk => ?_).trans (List.map_id _)
    have absent := List.find?_eq_none.mp (List.findSome?_eq_none_iff.mp none k hk)
    have kept : (k.subscribers.map fun x => if x.id == id then f x else x) = k.subscribers :=
      (List.map_congr_left fun x hx => if_neg (absent x hx)).trans (List.map_id _)
    rw [Queue.updateSubscriber, kept]
    rfl
  change { b with queues := b.queues.map (·.updateSubscriber id f) } = b
  rw [same]

theorem receive_eq (b : Bus) (id : Nat) : b.receive id =
    ((b.inbox id).head?, b.updateSubscriber id fun x => { x with inbox := x.inbox.tail }) := by
  unfold receive inbox
  cases found : b.subscriber? id with
  | none => rw [updateSubscriber_absent found]; rfl
  | some x => rfl

end Bus

end WorkflowEngine
