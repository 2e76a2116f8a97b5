import WorkflowEngine.Fault

/-!
Recovery from panics. Work that panics is taken for failed, and an alert is raised.
-/

namespace WorkflowEngine

structure Alert where
  /-- What was being done. -/
  context : String
  fault : Fault

/-- How a piece of work ended. -/
inductive Work (α : Type) where
  | done (result : α)
  | failed (fault : Fault)
  /-- It panicked, with a text or with something else. -/
  | panicked (text : Option String)

namespace Work

/-- The outcome of work, and the alerts it raises. -/
def recover {α : Type} (context : String) : Work α → Except Fault α × List Alert
  | done a => (.ok a, [])
  | failed f => (.error f, [])
  | panicked text =>
    let f := Fault.panic (text.getD "non-string panic payload")
    (.error f, [⟨context, f⟩])

/-- Work from its outcome, where a panic is a fault like any other. -/
def ofExcept {α : Type} : Except Fault α → Work α
  | .ok a => done a
  | .error (.panic text) => panicked (some text)
  | .error f => failed f

end Work

end WorkflowEngine
