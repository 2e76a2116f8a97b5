import WorkflowEngine.Bus.Message

/-!
The message bus. A message goes to one subscriber of its queue, each in turn; without one it waits
for the next subscriber, or is dropped if it expires. Sends to queues that are blocked are refused.
-/

namespace WorkflowEngine

/-- The receiving end of a subscription. -/
structure Subscriber where
  id : Nat
  /-- The messages that were delivered and not yet received. -/
  inbox : List Message := []
  isOpen : Bool := true

structure Queue where
  name : String
  /-- Every message that was accepted, since the record was last cleared. -/
  published : List Message := []
  /-- Messages that wait for a subscriber. -/
  pending : List Message := []
  subscribers : List Subscriber := []
  /-- Counts deliveries, and so tells whose turn it is. -/
  turn : Nat := 0
  /-- How many messages were dropped for want of a subscriber. -/
  expired : Nat := 0

namespace Queue

def live (q : Queue) : List Subscriber := q.subscribers.filter (·.isOpen)

/-- Hands a message to the open subscriber whose turn it is. -/
def deliver? (q : Queue) (m : Message) : Option Queue :=
  let live := q.live
  (live[q.turn % live.length]?).map fun next =>
    { q with
      subscribers := live.map fun s => if s.id == next.id then { s with inbox := s.inbox ++ [m] } else s
      turn := q.turn + 1 }

/-- Accepts a message. -/
def accept (q : Queue) (m : Message) : Queue :=
  let q := { q with published := q.published ++ [m], subscribers := q.live }
  match q.deliver? m with
  | some q => q
  | none =>
    if m.expires then { q with expired := q.expired + 1 } else { q with pending := q.pending ++ [m] }

/-- Adds a subscriber, who gets all messages that wait. -/
def subscribe (q : Queue) (id : Nat) : Queue :=
  { q with pending := [], subscribers := q.subscribers ++ [{ id, inbox := q.pending }] }

end Queue

structure Bus where
  queues : List Queue := []
  /-- Sends to queues whose names begin so are refused. -/
  blocked : List String := []
  /-- The queues that sends were refused to, in order. -/
  rejected : List String := []
  nextSubscriber : Nat := 0

namespace Bus

def queue? (b : Bus) (name : String) : Option Queue := b.queues.find? (·.name == name)

/-- Changes a queue, which is created if it is not there. -/
def update (b : Bus) (name : String) (f : Queue → Queue) : Bus :=
  if b.queues.any (·.name == name) then
    { b with queues := b.queues.map fun q => if q.name == name then f q else q }
  else { b with queues := b.queues ++ [f { name }] }

def isBlocked (b : Bus) (name : String) : Bool := b.blocked.any fun lead => lead.isPrefixOf name

/-- Sends a message. -/
def send (b : Bus) (queue : QueueName) (m : Message) : Except Fault Unit × Bus :=
  let name := queue.text
  if b.isBlocked name then
    (.error (.transport s!"injected failure for queue: {name}"),
      { b with rejected := b.rejected ++ [name] })
  else (.ok (), b.update name (·.accept m))

/-- Subscribes to a queue. -/
def subscribe (b : Bus) (queue : QueueName) : Nat × Bus :=
  let id := b.nextSubscriber
  (id, { b.update queue.text (·.subscribe id) with nextSubscriber := id + 1 })

def updateSubscriber (b : Bus) (id : Nat) (f : Subscriber → Subscriber) : Bus :=
  { b with queues := b.queues.map fun q =>
      { q with subscribers := q.subscribers.map fun s => if s.id == id then f s else s } }

def subscriber? (b : Bus) (id : Nat) : Option Subscriber :=
  b.queues.findSome? fun q => q.subscribers.find? (·.id == id)

/-- Takes the first message out of an inbox. -/
def receive (b : Bus) (id : Nat) : Option Message × Bus :=
  match b.subscriber? id with
  | none => (none, b)
  | some s => (s.inbox.head?, b.updateSubscriber id fun s => { s with inbox := s.inbox.tail })

/-- Takes all messages out of an inbox. -/
def drain (b : Bus) (id : Nat) : List Message × Bus :=
  match b.subscriber? id with
  | none => ([], b)
  | some s => (s.inbox, b.updateSubscriber id fun s => { s with inbox := [] })

/-- Ends a subscription; what is left in the inbox is lost. -/
def unsubscribe (b : Bus) (id : Nat) : Bus :=
  b.updateSubscriber id fun s => { s with isOpen := false, inbox := [] }

/-! ### Records -/

def published (b : Bus) (queue : QueueName) : List Message :=
  ((b.queue? queue.text).map (·.published)).getD []

/-- The queues that messages were published to, in the order of their names. -/
def queueNames (b : Bus) : List String :=
  ((b.queues.filter (!·.published.isEmpty)).map (·.name)).mergeSort (fun a b => decide (a ≤ b))

def expired (b : Bus) (queue : QueueName) : Nat := ((b.queue? queue.text).map (·.expired)).getD 0

def clearPublished (b : Bus) : Bus :=
  { b with queues := b.queues.map fun q => { q with published := [] } }

end Bus

end WorkflowEngine
