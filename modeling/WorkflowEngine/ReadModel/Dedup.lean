import WorkflowEngine.ReadModel.Row

/-!
A memory of the events written last. It spares the log most duplicates; keys are remembered only
once the write has succeeded, so a failed write is repeated in full.
-/

namespace WorkflowEngine

/-- The keys of the events written last, the most recently used first. -/
structure DedupCache where
  capacity : Nat
  keys : List String := []
  deriving DecidableEq, Repr

namespace DedupCache

/-- An empty memory, of at least one key. -/
def ofCapacity (capacity : Nat) : DedupCache := { capacity := max capacity 1 }

def size (c : DedupCache) : Nat := c.keys.length

/-- Moves a key that is there to the front. -/
def touch (c : DedupCache) (key : String) : DedupCache :=
  { c with keys := key :: c.keys.erase key }

/-- Puts a key to the front; the least recently used one gives way. -/
def put (c : DedupCache) (key : String) : DedupCache :=
  { c with keys := (key :: c.keys.erase key).take c.capacity }

/-- The events that were not written before, each once, and the memory with those met again moved to
the front. -/
def unseen (c : DedupCache) (events : List TaskEvent) : List TaskEvent × DedupCache :=
  go c [] events
where
  go (c : DedupCache) (batch : List String) : List TaskEvent → List TaskEvent × DedupCache
    | [] => ([], c)
    | e :: rest =>
      if c.keys.contains e.dedupKey then go (c.touch e.dedupKey) batch rest
      else if batch.contains e.dedupKey then go c batch rest
      else
        let (fresh, c) := go c (e.dedupKey :: batch) rest
        (e :: fresh, c)

/-- Notes events as written. -/
def remember (c : DedupCache) (events : List TaskEvent) : DedupCache :=
  events.foldl (fun c e => c.put e.dedupKey) c

end DedupCache

end WorkflowEngine
