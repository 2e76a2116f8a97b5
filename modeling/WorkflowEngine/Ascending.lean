/-!
Ascending lists without repetition, ordered by a key of their elements.
-/

namespace WorkflowEngine.Ascending

/-- Puts an element into its place, instead of the element with its key if there is one. -/
def put {α : Type} (before : α → α → Bool) (a : α) : List α → List α
  | [] => [a]
  | b :: rest =>
    if before a b then a :: b :: rest
    else if before b a then b :: put before a rest
    else a :: rest

/-- The elements of a list in ascending order, the last of those with one key. -/
def ofList {α : Type} (before : α → α → Bool) (l : List α) : List α :=
  l.foldl (fun acc a => put before a acc) []

end WorkflowEngine.Ascending
