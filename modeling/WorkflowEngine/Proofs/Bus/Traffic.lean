import WorkflowEngine.Proofs.Bus.Queues

/-!
The traffic on a bus: messages are sent, subscribers come, receive and leave, in any order. A log is
kept beside the bus of what has become of each message that was accepted. The two agree at all times,
and what the log says of a message that does not wait it says for good: each message is handed to one
subscriber of its own queue, or it waits, or it has been dropped.
-/

namespace WorkflowEngine

/-- A message that was accepted, and what has become of it. -/
structure LogEntry where
  queue : QueueName
  message : Message
  /-- The queue had a subscriber when the message was sent. -/
  listened : Bool
  fate : Fate

/-- A message that waits in the queue is handed to a subscriber. -/
def LogEntry.handTo (q : QueueName) (id : Nat) (p : LogEntry) : LogEntry :=
  if p.queue = q ∧ p.fate = .waiting then { p with fate := .handed id } else p

namespace LogEntry

variable {q : QueueName} {id : Nat} {p : LogEntry}

@[simp] theorem handTo_queue : (p.handTo q id).queue = p.queue := by
  unfold handTo
  split <;> rfl

@[simp] theorem handTo_message : (p.handTo q id).message = p.message := by
  unfold handTo
  split <;> rfl

@[simp] theorem handTo_listened : (p.handTo q id).listened = p.listened := by
  unfold handTo
  split <;> rfl

@[simp] theorem handTo_fate : (p.handTo q id).fate =
    if p.queue = q ∧ p.fate = .waiting then .handed id else p.fate := by
  unfold handTo
  split <;> rfl

end LogEntry

structure TrafficLog where
  /-- Every message that was accepted, in the order of sending. -/
  posted : List LogEntry := []
  /-- The queue of each subscriber, by number. -/
  homes : List QueueName := []
  /-- Who received which message, or left it behind. -/
  got : List (Nat × Message) := []

namespace TrafficLog

def post (l : TrafficLog) (p : LogEntry) : TrafficLog := { l with posted := l.posted ++ [p] }

/-- The next subscriber gets what waits. -/
def enrol (l : TrafficLog) (q : QueueName) : TrafficLog :=
  { l with posted := l.posted.map (.handTo q l.homes.length), homes := l.homes ++ [q] }

def note (l : TrafficLog) (id : Nat) (ms : List Message) : TrafficLog :=
  { l with got := l.got ++ ms.map (id, ·) }

/-- The messages sent to a queue that have come to some fate, in the order of sending. -/
def sentWith (l : TrafficLog) (q : QueueName) (fate : Fate) : List Message :=
  (l.posted.filter fun p => p.queue = q ∧ p.fate = fate).map (·.message)

def sentTo (l : TrafficLog) (q : QueueName) : List Message :=
  (l.posted.filter (·.queue = q)).map (·.message)

/-- What a subscriber has received so far. -/
def gotBy (l : TrafficLog) (id : Nat) : List Message := (l.got.filter (·.1 = id)).map (·.2)

variable {l : TrafficLog} {p : LogEntry} {q r : QueueName} {fate : Fate} {m : Message} {id other : Nat}
  {k : Queue} {ms : List Message}

theorem sentWith_post : (l.post p).sentWith q fate =
    l.sentWith q fate ++ if p.queue = q ∧ p.fate = fate then [p.message] else [] := by
  rw [sentWith, post, List.filter_append, List.map_append]
  by_cases here : p.queue = q ∧ p.fate = fate <;> simp [here, sentWith]

theorem sentTo_post : (l.post p).sentTo q = l.sentTo q ++ if p.queue = q then [p.message] else [] := by
  rw [sentTo, post, List.filter_append, List.map_append]
  by_cases here : p.queue = q <;> simp [here, sentTo]

theorem sentTo_enrol : (l.enrol q).sentTo r = l.sentTo r := by
  simp [sentTo, enrol, List.filter_map, Function.comp_def]

theorem sentWith_enrol (fresh : ∀ p ∈ l.posted, p.fate ≠ .handed l.homes.length) :
    (l.enrol q).sentWith r fate =
      if r = q ∧ fate = .waiting then []
      else if r = q ∧ fate = .handed l.homes.length then l.sentWith q .waiting
      else l.sentWith r fate := by
  simp only [sentWith, enrol, List.filter_map, List.map_map, Function.comp_def, LogEntry.handTo_message,
    LogEntry.handTo_queue, LogEntry.handTo_fate]
  split
  · rename_i waits
    obtain ⟨rfl, rfl⟩ := waits
    rw [List.map_eq_nil_iff, List.filter_eq_nil_iff]
    intro p _
    by_cases here : p.queue = r ∧ p.fate = .waiting <;> simp_all
  · rename_i notWaits
    split
    · rename_i handed
      obtain ⟨rfl, rfl⟩ := handed
      refine congrArg (List.map _) (List.filter_congr fun p hp => ?_)
      have := fresh p hp
      by_cases here : p.queue = r ∧ p.fate = .waiting <;> simp_all
    · rename_i notHanded
      refine congrArg (List.map _) (List.filter_congr fun p hp => ?_)
      by_cases here : p.queue = q ∧ p.fate = .waiting
      · rw [if_pos here]
        obtain ⟨rfl, waits⟩ := here
        rw [waits]
        grind
      · rw [if_neg here]

theorem gotBy_note : (l.note id ms).gotBy other = l.gotBy other ++ if other = id then ms else [] := by
  rw [gotBy, note, List.filter_append, List.map_append, List.filter_map, List.map_map]
  by_cases here : other = id
  · simp [here, gotBy, Function.comp_def]
  · simp [here, gotBy, Function.comp_def, Ne.symm here]

@[simp] theorem gotBy_post : (l.post p).gotBy id = l.gotBy id := rfl

@[simp] theorem gotBy_enrol : (l.enrol q).gotBy id = l.gotBy id := rfl

theorem homes_enrol : (l.enrol q).homes[id]? = some r ↔
    l.homes[id]? = some r ∨ id = l.homes.length ∧ r = q := by
  rw [enrol]
  rcases Nat.lt_trichotomy id l.homes.length with old | rfl | beyond
  · rw [List.getElem?_append_left old]
    simp [Nat.ne_of_lt old]
  · simp [eq_comm]
  · have beyond' : (l.homes ++ [q]).length ≤ id := by simpa using Nat.succ_le_of_lt beyond
    rw [List.getElem?_eq_none (Nat.le_of_lt beyond), List.getElem?_eq_none beyond']
    simp [Nat.ne_of_gt beyond]

/-- The log is in order in itself. -/
structure Orderly (l : TrafficLog) : Prop where
  fits : ∀ q ∈ l.homes, q.Fits
  known : ∀ g ∈ l.got, g.1 < l.homes.length
  home : ∀ p ∈ l.posted, ∀ id, p.fate = .handed id → l.homes[id]? = some p.queue
  expired : ∀ p ∈ l.posted, p.fate = .expired ↔ p.message.expires = true ∧ p.listened = false
  waiting : ∀ p ∈ l.posted, p.fate = .waiting → p.message.expires = false

/-- A queue is as the log says. -/
structure Agrees (l : TrafficLog) (q : QueueName) (k : Queue) : Prop where
  sound : k.Sound
  published : k.published = l.sentTo q
  pending : k.pending = l.sentWith q .waiting
  expired : k.expired = (l.sentWith q .expired).length
  home : ∀ x ∈ k.subscribers, l.homes[x.id]? = some q
  history : ∀ id, l.homes[id]? = some q → l.gotBy id ++ k.inboxOf id = l.sentWith q (.handed id)

/-- A message that was accepted goes on record, and the queue is as the record says. -/
theorem Agrees.accept {listened : Bool} (agrees : l.Agrees q k) (m : Message) :
    (l.post ⟨q, m, listened, k.fate m⟩).Agrees q (k.accept m) where
  sound := agrees.sound.accept m
  published := by simp [k.accept_eq m, sentTo_post, agrees.published]
  pending := by simp [k.accept_eq m, sentWith_post, agrees.pending]
  expired := by
    simp only [k.accept_eq m, sentWith_post, agrees.expired, true_and, List.length_append]
    split <;> rfl
  home y hy := by
    obtain ⟨x, hx, rfl⟩ := Queue.mem_accept.mp hy
    rw [apply_ite Subscriber.id, ite_self]
    exact agrees.home x (List.mem_filter.mp hx).1
  history id here := by
    rw [Queue.inboxOf_accept agrees.sound, sentWith_post, ← agrees.history id here]
    simp

theorem Agrees.post (agrees : l.Agrees q k) (other : p.queue ≠ q) : (l.post p).Agrees q k where
  sound := agrees.sound
  published := by simp [sentTo_post, other, agrees.published]
  pending := by simp [sentWith_post, other, agrees.pending]
  expired := by simp [sentWith_post, other, agrees.expired]
  home := agrees.home
  history id here := by simpa [sentWith_post, other] using agrees.history id here

/-! ### Subscribers -/

theorem Orderly.fresh (orderly : l.Orderly) : ∀ p ∈ l.posted, p.fate ≠ .handed l.homes.length := by
  intro p hp handed
  have home := orderly.home p hp _ handed
  rw [List.getElem?_eq_none (Nat.le_refl _)] at home
  cases home

theorem Orderly.gotBy_next (orderly : l.Orderly) : l.gotBy l.homes.length = [] := by
  rw [gotBy, List.map_eq_nil_iff, List.filter_eq_nil_iff]
  intro g hg same
  have known := orderly.known g hg
  rw [decide_eq_true_iff.mp same] at known
  exact Nat.lt_irrefl _ known

theorem Agrees.number_lt (agrees : l.Agrees q k) : ∀ x ∈ k.subscribers, x.id < l.homes.length :=
  fun x hx => (List.getElem?_eq_some_iff.mp (agrees.home x hx)).1

theorem Agrees.subscribe (agrees : l.Agrees q k) (orderly : l.Orderly) :
    (l.enrol q).Agrees q (k.subscribe l.homes.length) := by
  have fresh : ∀ x ∈ k.subscribers, x.id ≠ l.homes.length :=
    fun x hx => Nat.ne_of_lt (agrees.number_lt x hx)
  refine ⟨agrees.sound.subscribe fresh, ?_, ?_, ?_, fun x hx => ?_, fun id here => ?_⟩
  · rw [sentTo_enrol]
    exact agrees.published
  · simp [sentWith_enrol orderly.fresh, Queue.subscribe]
  · simp [sentWith_enrol orderly.fresh, Queue.subscribe, agrees.expired]
  · rw [homes_enrol]
    rcases List.mem_append.mp hx with old | new
    · exact Or.inl (agrees.home x old)
    · rw [List.mem_singleton.mp new]
      exact Or.inr ⟨rfl, rfl⟩
  · rw [Queue.inboxOf_subscribe fresh, sentWith_enrol orderly.fresh]
    rcases homes_enrol.mp here with old | ⟨rfl, -⟩
    · have number := (List.getElem?_eq_some_iff.mp old).1
      simpa [Nat.ne_of_lt number] using agrees.history id old
    · simp [orderly.gotBy_next, agrees.pending]

theorem Agrees.enrol (agrees : l.Agrees q k) (orderly : l.Orderly) (other : q ≠ r) :
    (l.enrol r).Agrees q k where
  sound := agrees.sound
  published := by simp [sentTo_enrol, agrees.published]
  pending := by simp [sentWith_enrol orderly.fresh, other, agrees.pending]
  expired := by simp [sentWith_enrol orderly.fresh, other, agrees.expired]
  home x hx := homes_enrol.mpr (Or.inl (agrees.home x hx))
  history id here := by
    have home := (homes_enrol.mp here).resolve_right fun new => other new.2
    simpa [sentWith_enrol orderly.fresh, other] using agrees.history id home

theorem Orderly.enrol (orderly : l.Orderly) (fits : q.Fits) : (l.enrol q).Orderly where
  fits := List.forall_mem_append.mpr ⟨orderly.fits, List.forall_mem_singleton.mpr fits⟩
  known g hg := by
    have known := orderly.known g hg
    simp only [TrafficLog.enrol, List.length_append]
    omega
  home := by
    refine List.forall_mem_map.mpr fun p hp id handed => homes_enrol.mpr ?_
    rw [LogEntry.handTo_fate] at handed
    rw [LogEntry.handTo_queue]
    split at handed
    · rename_i here
      cases handed
      exact Or.inr ⟨rfl, here.1⟩
    · exact Or.inl (orderly.home p hp id handed)
  expired := by
    refine List.forall_mem_map.mpr fun p hp => ?_
    rw [LogEntry.handTo_fate, LogEntry.handTo_message, LogEntry.handTo_listened, ← orderly.expired p hp]
    split
    · rename_i here
      simp [here.2]
    · exact Iff.rfl
  waiting := by
    refine List.forall_mem_map.mpr fun p hp waits => ?_
    rw [LogEntry.handTo_fate] at waits
    rw [LogEntry.handTo_message]
    split at waits
    · cases waits
    · exact orderly.waiting p hp waits

theorem Orderly.note (orderly : l.Orderly) (known : ms ≠ [] → id < l.homes.length) :
    (l.note id ms).Orderly where
  fits := orderly.fits
  known := by
    refine List.forall_mem_append.mpr ⟨orderly.known, List.forall_mem_map.mpr fun m hm => ?_⟩
    exact known (List.ne_nil_of_mem hm)
  home := orderly.home
  expired := orderly.expired
  waiting := orderly.waiting

theorem Orderly.accept (orderly : l.Orderly) (agrees : l.Agrees q k) (m : Message) :
    (l.post ⟨q, m, !k.live.isEmpty, k.fate m⟩).Orderly where
  fits := orderly.fits
  known := orderly.known
  home := by
    refine List.forall_mem_append.mpr ⟨orderly.home, List.forall_mem_singleton.mpr fun id handed => ?_⟩
    obtain ⟨x, hx, rfl⟩ := Queue.live_of_handed handed
    exact agrees.home x (List.mem_filter.mp hx).1
  expired := by
    refine List.forall_mem_append.mpr ⟨orderly.expired, List.forall_mem_singleton.mpr ?_⟩
    simp [Queue.fate_expired]
  waiting := by
    refine List.forall_mem_append.mpr ⟨orderly.waiting, List.forall_mem_singleton.mpr fun waits => ?_⟩
    exact (Queue.fate_waiting.mp waits).1

theorem Agrees.take {f : Subscriber → Subscriber} {g : List Message → List Message}
    (agrees : l.Agrees q k) (keeps : ∀ x, (f x).id = x.id) (inbox : ∀ x, (f x).inbox = g x.inbox)
    (nothing : g [] = []) (opens : ∀ x, (f x).isOpen = true → x.isOpen = true)
    (closes : ∀ x, (f x).isOpen = false → (x.isOpen = false → x.inbox = []) → (f x).inbox = [])
    (taken : l.homes[id]? = some q → k.inboxOf id = ms ++ g (k.inboxOf id)) :
    (l.note id ms).Agrees q (k.updateSubscriber id f) where
  sound := agrees.sound.updateSubscriber keeps opens closes
  published := agrees.published
  pending := agrees.pending
  expired := agrees.expired
  home y hy := by
    obtain ⟨x, hx, rfl⟩ := List.mem_map.mp hy
    rw [apply_ite Subscriber.id, keeps, ite_self]
    exact agrees.home x hx
  history other here := by
    rw [Queue.inboxOf_updateSubscriber keeps inbox nothing, gotBy_note]
    refine Eq.trans ?_ (agrees.history other here)
    split
    · rename_i same
      subst same
      rw [List.append_assoc, ← taken here]
    · rw [List.append_nil]

/-! ### As time goes by -/

/-- What came after a log: the messages are still on record in their order, those that waited may have
been handed to somebody, and subscribers have only been handed more. -/
structure Later (l l' : TrafficLog) : Prop where
  posted : ∀ (i : Nat) (p : LogEntry), l.posted[i]? = some p → ∃ p', l'.posted[i]? = some p' ∧
    (p' = p ∨ p.fate = .waiting ∧ ∃ id, p' = { p with fate := .handed id })
  homes : ∀ (id : Nat) (q : QueueName), l.homes[id]? = some q → l'.homes[id]? = some q ∧
    l.sentWith q (.handed id) <+: l'.sentWith q (.handed id)

theorem Later.refl (l : TrafficLog) : Later l l :=
  ⟨fun _ p here => ⟨p, here, Or.inl rfl⟩, fun _ _ home => ⟨home, List.prefix_refl _⟩⟩

theorem Later.trans {l₁ l₂ l₃ : TrafficLog} (first : Later l₁ l₂) (second : Later l₂ l₃) :
    Later l₁ l₃ := by
  refine ⟨fun i p here => ?_, fun id q home => ?_⟩
  · obtain ⟨p₂, here, changed⟩ := first.posted i p here
    obtain ⟨p₃, here, changed'⟩ := second.posted i p₂ here
    refine ⟨p₃, here, ?_⟩
    rcases changed with rfl | ⟨waits, id, rfl⟩
    · exact changed'
    · rcases changed' with rfl | ⟨waits', -⟩
      · exact Or.inr ⟨waits, id, rfl⟩
      · cases waits'
  · obtain ⟨home, more⟩ := first.homes id q home
    obtain ⟨home, more'⟩ := second.homes id q home
    exact ⟨home, more.trans more'⟩

theorem later_post (l : TrafficLog) (p : LogEntry) : l.Later (l.post p) := by
  refine ⟨fun i p' here => ⟨p', ?_, Or.inl rfl⟩, fun id q home => ⟨home, ?_⟩⟩
  · rw [post, List.getElem?_append_left (List.getElem?_eq_some_iff.mp here).1]
    exact here
  · rw [sentWith_post]
    exact List.prefix_append _ _

theorem Orderly.later_enrol (orderly : l.Orderly) (q : QueueName) : l.Later (l.enrol q) := by
  refine ⟨fun i p here => ⟨p.handTo q l.homes.length, ?_, ?_⟩, fun id r home => ?_⟩
  · rw [TrafficLog.enrol, List.getElem?_map, here]
    rfl
  · unfold LogEntry.handTo
    split
    · rename_i waits
      exact Or.inr ⟨waits.2, _, rfl⟩
    · exact Or.inl rfl
  · refine ⟨homes_enrol.mpr (Or.inl home), ?_⟩
    have number := (List.getElem?_eq_some_iff.mp home).1
    have old : (l.enrol q).sentWith r (.handed id) = l.sentWith r (.handed id) := by
      simp [sentWith_enrol orderly.fresh, Nat.ne_of_lt number]
    exact old ▸ List.prefix_refl _

end TrafficLog

structure Traffic where
  bus : Bus := {}
  log : TrafficLog := {}

inductive TrafficStep where
  | send (q : QueueName) (m : Message)
  | subscribe (q : QueueName)
  | receive (id : Nat)
  | close (id : Nat)
  /-- From now on sends to the queues whose names begin so are refused. -/
  | block (leads : List String)
  /-- It is the turn of another subscriber: the counter has wrapped around, or has passed by somebody
  who left just when a message was offered. -/
  | turn (q : QueueName) (turn : Nat)

/-- The queue that the step names is one that there may be. -/
def TrafficStep.Fits : TrafficStep → Prop
  | .send q _ | .subscribe q | .turn q _ => q.Fits
  | _ => True

namespace Traffic

def step (t : Traffic) : TrafficStep → Traffic
  | .send q m =>
    let k := t.bus.queueOf q
    { bus := (t.bus.send q m).2
      log := if t.bus.isBlocked q.text then t.log
        else t.log.post ⟨q, m, !k.live.isEmpty, k.fate m⟩ }
  | .subscribe q => { bus := (t.bus.subscribe q).2, log := t.log.enrol q }
  | .receive id =>
    { bus := (t.bus.receive id).2, log := t.log.note id (t.bus.receive id).1.toList }
  | .close id => { bus := t.bus.unsubscribe id, log := t.log.note id (t.bus.inbox id) }
  | .block leads => { t with bus := { t.bus with blocked := leads } }
  | .turn q turn => { t with bus := t.bus.update q.text fun k => { k with turn } }

def run (t : Traffic) (steps : List TrafficStep) : Traffic := steps.foldl step t

/-- All that a subscriber has been given, in order. -/
def history (t : Traffic) (id : Nat) : List Message := t.log.gotBy id ++ t.bus.inbox id

variable {t : Traffic} {q r : QueueName} {m : Message} {id : Nat}

structure Sound (t : Traffic) : Prop where
  tidy : t.bus.Tidy
  numbered : t.log.homes.length = t.bus.nextSubscriber
  orderly : t.log.Orderly
  agrees : ∀ q : QueueName, q.Fits → t.log.Agrees q (t.bus.queueOf q)

theorem sound_empty : ({} : Traffic).Sound where
  tidy := ⟨.nil, List.forall_mem_nil _⟩
  numbered := rfl
  orderly := ⟨List.forall_mem_nil _, List.forall_mem_nil _, List.forall_mem_nil _, List.forall_mem_nil _,
    List.forall_mem_nil _⟩
  agrees q _ := ⟨Queue.sound_empty _, rfl, rfl, rfl, List.forall_mem_nil _, fun id home => by cases home⟩

/-- What somebody has to receive is in the queue that they subscribed to. -/
theorem Sound.inbox_eq (sound : t.Sound) (home : t.log.homes[id]? = some q) :
    t.bus.inbox id = (t.bus.queueOf q).inboxOf id := by
  have fits := sound.orderly.fits q (List.mem_of_getElem? home)
  unfold Bus.inbox
  -- a subscriber that is found at all is found in the queue that the log has as its home
  cases found : t.bus.subscriber? id with
  | none => exact (Queue.inboxOf_absent (Bus.subscriber?_none found q)).symm
  | some x =>
    obtain ⟨r, fits', hx, rfl⟩ := Bus.subscriber?_some sound.tidy found
    cases home.symm.trans ((sound.agrees r fits').home x hx)
    exact (Queue.inboxOf_eq (sound.agrees q fits).sound.ids hx).symm

theorem Sound.number_lt (sound : t.Sound) (some : t.bus.inbox id ≠ []) : id < t.log.homes.length := by
  unfold Bus.inbox at some
  cases found : t.bus.subscriber? id with
  | none =>
    rw [found] at some
    exact absurd rfl some
  | some x =>
    obtain ⟨q, fits, hx, rfl⟩ := Bus.subscriber?_some sound.tidy found
    exact (sound.agrees q fits).number_lt x hx

theorem Sound.send (sound : t.Sound) (fits : q.Fits) (m : Message) : (t.step (.send q m)).Sound := by
  simp only [step, Bus.send]
  by_cases refused : t.bus.isBlocked q.text = true
  · rw [if_pos refused, if_pos refused]
    exact ⟨⟨sound.tidy.once, sound.tidy.named⟩, sound.numbered, sound.orderly, sound.agrees⟩
  · rw [if_neg refused, if_neg refused]
    have keeps (k : Queue) : (k.accept m).name = k.name := (k.accept_record m).1
    have agrees := sound.agrees q fits
    refine ⟨sound.tidy.update keeps fits, ?_, sound.orderly.accept agrees m, fun r fits' => ?_⟩
    · exact sound.numbered.trans (Bus.nextSubscriber_update _ _ _).symm
    · rw [Bus.queueOf_update keeps fits fits']
      split
      · rename_i same
        exact same ▸ agrees.accept m
      · rename_i apart
        exact (sound.agrees r fits').post (Ne.symm apart)

theorem Sound.subscribe (sound : t.Sound) (fits : q.Fits) : (t.step (.subscribe q)).Sound := by
  have keeps (k : Queue) : (k.subscribe t.bus.nextSubscriber).name = k.name := rfl
  have tidy := sound.tidy.update keeps fits
  refine ⟨⟨tidy.once, tidy.named⟩, ?_, sound.orderly.enrol fits, fun r fits' => ?_⟩
  · simp [step, TrafficLog.enrol, Bus.subscribe, sound.numbered]
  · have here : (t.step (.subscribe q)).bus.queueOf r =
        (t.bus.update q.text (·.subscribe t.bus.nextSubscriber)).queueOf r := rfl
    rw [here, Bus.queueOf_update keeps fits fits', ← sound.numbered]
    split
    · rename_i same
      exact same ▸ (sound.agrees q fits).subscribe sound.orderly
    · rename_i apart
      exact (sound.agrees r fits').enrol sound.orderly apart

theorem Sound.take {f : Subscriber → Subscriber} {g : List Message → List Message} {ms : List Message}
    (sound : t.Sound) (keeps : ∀ x, (f x).id = x.id) (inbox : ∀ x, (f x).inbox = g x.inbox)
    (nothing : g [] = []) (opens : ∀ x, (f x).isOpen = true → x.isOpen = true)
    (closes : ∀ x, (f x).isOpen = false → (x.isOpen = false → x.inbox = []) → (f x).inbox = [])
    (taken : t.bus.inbox id = ms ++ g (t.bus.inbox id)) :
    Sound ⟨t.bus.updateSubscriber id f, t.log.note id ms⟩ := by
  refine ⟨sound.tidy.updateSubscriber id f, sound.numbered, sound.orderly.note fun some => ?_,
    fun q fits => ?_⟩
  · refine sound.number_lt fun none => some ?_
    rw [none] at taken
    exact (List.append_eq_nil_iff.mp taken.symm).1
  · rw [Bus.queueOf_updateSubscriber]
    refine (sound.agrees q fits).take keeps inbox nothing opens closes fun home => ?_
    rwa [← sound.inbox_eq home]

theorem step_sound {a : TrafficStep} (sound : t.Sound) (fits : a.Fits) : (t.step a).Sound := by
  cases a with
  | send q m => exact sound.send fits m
  | subscribe q => exact sound.subscribe fits
  | receive id =>
    -- a closed inbox is empty, and so is its tail
    simp only [step, Bus.receive_eq]
    refine sound.take (g := List.tail) (fun _ => rfl) (fun _ => rfl) rfl (fun _ opened => opened) ?_ ?_
    · intro x closed empty
      rw [empty closed]
      rfl
    · cases t.bus.inbox id <;> rfl
  | close id =>
    refine sound.take (g := fun _ => []) (fun _ => rfl) (fun _ => rfl) rfl ?_ (fun _ _ _ => rfl) ?_
    · exact fun _ opened => by cases opened
    · exact (List.append_nil _).symm
  | block leads =>
    exact ⟨⟨sound.tidy.once, sound.tidy.named⟩, sound.numbered, sound.orderly, sound.agrees⟩
  | turn q turn =>
    have keeps (k : Queue) : ({ k with turn } : Queue).name = k.name := rfl
    refine ⟨sound.tidy.update keeps fits, ?_, sound.orderly, fun r fits' => ?_⟩
    · exact sound.numbered.trans (Bus.nextSubscriber_update _ _ _).symm
    · simp only [step]
      rw [Bus.queueOf_update keeps fits fits']
      split
      · rename_i same
        subst same
        have agrees := sound.agrees r fits
        exact ⟨⟨agrees.sound.ids, agrees.sound.closed, agrees.sound.idle⟩, agrees.published,
          agrees.pending, agrees.expired, agrees.home, agrees.history⟩
      · exact sound.agrees r fits'

theorem Sound.later (sound : t.Sound) (a : TrafficStep) : t.log.Later (t.step a).log := by
  cases a with
  | send q m =>
    simp only [step]
    split
    · exact .refl _
    · exact t.log.later_post _
  | subscribe q => exact sound.orderly.later_enrol q
  | receive | close | block | turn =>
    exact ⟨(TrafficLog.Later.refl _).posted, (TrafficLog.Later.refl _).homes⟩

theorem Sound.run {steps : List TrafficStep} (sound : t.Sound) (fits : ∀ a ∈ steps, a.Fits) :
    (t.run steps).Sound ∧ t.log.Later (t.run steps).log := by
  induction steps generalizing t with
  | nil => exact ⟨sound, .refl _⟩
  | cons a rest ih =>
    obtain ⟨first, others⟩ := List.forall_mem_cons.mp fits
    obtain ⟨sound', later⟩ := ih (step_sound sound first) others
    exact ⟨sound', (sound.later a).trans later⟩

/-! ### In all -/

/-- The messages of each queue are accounted for, each in one place. -/
structure Accounted (t : Traffic) : Prop where
  published : ∀ q : QueueName, q.Fits → t.bus.published q = t.log.sentTo q
  waiting : ∀ q : QueueName, q.Fits → (t.bus.queueOf q).pending = t.log.sentWith q .waiting
  expired : ∀ q : QueueName, q.Fits → t.bus.expired q = (t.log.sentWith q .expired).length
  handed : ∀ (id : Nat) (q : QueueName), t.log.homes[id]? = some q →
    t.history id = t.log.sentWith q (.handed id)
  /-- A message is handed to a subscriber of its own queue. -/
  home : ∀ p ∈ t.log.posted, ∀ id, p.fate = .handed id → t.log.homes[id]? = some p.queue
  /-- It is dropped just if it may be and nobody listens. -/
  dropped : ∀ p ∈ t.log.posted, p.fate = .expired ↔ p.message.expires = true ∧ p.listened = false
  patient : ∀ q : QueueName, q.Fits → ∀ m ∈ (t.bus.queueOf q).pending, m.expires = false
  idle : ∀ q : QueueName, q.Fits → (t.bus.queueOf q).pending ≠ [] → (t.bus.queueOf q).live = []

theorem published_queueOf (b : Bus) (q : QueueName) : b.published q = (b.queueOf q).published := by
  unfold Bus.published Bus.queueOf
  cases b.queue? q.text <;> rfl

theorem expired_queueOf (b : Bus) (q : QueueName) : b.expired q = (b.queueOf q).expired := by
  unfold Bus.expired Bus.queueOf
  cases b.queue? q.text <;> rfl

theorem Sound.accounted (sound : t.Sound) : t.Accounted where
  published q fits := (published_queueOf _ q).trans (sound.agrees q fits).published
  waiting q fits := (sound.agrees q fits).pending
  expired q fits := (expired_queueOf _ q).trans (sound.agrees q fits).expired
  handed id q home := by
    have fits := sound.orderly.fits q (List.mem_of_getElem? home)
    rw [history, sound.inbox_eq home]
    exact (sound.agrees q fits).history id home
  home := sound.orderly.home
  dropped := sound.orderly.expired
  patient q fits m hm := by
    rw [(sound.agrees q fits).pending] at hm
    obtain ⟨p, hp, rfl⟩ := List.mem_map.mp hm
    obtain ⟨hp, waits⟩ := List.mem_filter.mp hp
    exact sound.orderly.waiting p hp (decide_eq_true_iff.mp waits).2
  idle q fits := (sound.agrees q fits).sound.idle

/-- Who subscribes is given what waits before anything else. -/
theorem Sound.next_history {more : List TrafficStep} (sound : t.Sound) (fits : q.Fits)
    (fits' : ∀ a ∈ more, a.Fits) : (t.bus.queueOf q).pending <+:
      ((t.step (.subscribe q)).run more).history t.bus.nextSubscriber := by
  obtain ⟨sound', later⟩ := (sound.subscribe fits).run fits'
  have home : (t.step (.subscribe q)).log.homes[t.log.homes.length]? = some q :=
    TrafficLog.homes_enrol.mpr (Or.inr ⟨rfl, rfl⟩)
  obtain ⟨home, more⟩ := later.homes _ _ home
  have first : (t.step (.subscribe q)).log.sentWith q (.handed t.log.homes.length) =
      (t.bus.queueOf q).pending := by
    simp [step, TrafficLog.sentWith_enrol sound.orderly.fresh, (sound.agrees q fits).pending]
  rw [← sound.numbered, sound'.accounted.handed _ _ home, ← first]
  exact more

/-- Whatever is sent, and whoever comes and goes, every message that a queue has accepted is at all times
in one place: dropped, waiting, or handed to one subscriber of that queue, each of whom gets what it is
handed in the order of sending. What is handed or dropped stays so, and what waits comes first for the
next subscriber of the queue. -/
theorem traffic_accounted (steps more : List TrafficStep) (q : QueueName) (fits : q.Fits)
    (fits' : ∀ a ∈ steps ++ more, a.Fits) :
    (run {} steps).Accounted ∧ (run {} steps).log.Later (run {} (steps ++ more)).log ∧
      ((run {} steps).bus.queueOf q).pending <+:
        (run {} (steps ++ .subscribe q :: more)).history (run {} steps).bus.nextSubscriber := by
  obtain ⟨before, after⟩ := List.forall_mem_append.mp fits'
  obtain ⟨sound, -⟩ := sound_empty.run before
  have split (more : List TrafficStep) : run {} (steps ++ more) = (run {} steps).run more :=
    List.foldl_append
  rw [split, split]
  exact ⟨sound.accounted, (sound.run after).2, sound.next_history fits after⟩

/-- A message of the scheduler of a partition. -/
def notice (expires : Bool) (n : Nat) : Message :=
  { kindName := "notice", payloads := [], tenantId := ⟨n⟩, expires, persistent := false, retries := 0 }

/-- Two notices find nobody, and one of them may be dropped; then two listeners come, are told, and one
leaves with a notice unread. A queue of a similar name has its own. -/
def rush : List TrafficStep := [
  .send (.scheduler "p") (notice false 1), .send (.scheduler "p") (notice true 2),
  .subscribe (.scheduler "p"), .subscribe (.scheduler "p"), .send (.scheduler "p") (notice false 3),
  .send (.scheduler "p") (notice true 4), .receive 0, .close 1,
  .send (.scheduler "p_scheduler") (notice false 5)]

theorem rush_accounted : (Traffic.run {} rush).Accounted ∧
    (Traffic.run {} rush).log.posted.map (·.fate) =
      [.handed 0, .expired, .handed 0, .handed 1, .waiting] ∧
    ((Traffic.run {} rush).bus.queueOf (.scheduler "p_scheduler")).pending <+:
        (Traffic.run {} (rush ++ [.subscribe (.scheduler "p_scheduler")])).history 2 := by
  have fits : ∀ a ∈ rush ++ [], a.Fits := by simp [rush, TrafficStep.Fits, QueueName.Fits]
  obtain ⟨accounted, -, first⟩ := traffic_accounted rush [] (.scheduler "p_scheduler") trivial fits
  exact ⟨accounted, rfl, first⟩

end Traffic

end WorkflowEngine
