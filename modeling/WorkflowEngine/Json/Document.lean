import WorkflowEngine.Json.Value

/-!
JSON text read for its structure only. A `Document` keeps numbers as their digits and marks texts
that stand for no string, so that a member nobody asks for need not have a value.
`Document.toJson?` gives the value of a document that has one and is not nested too deeply.
-/

namespace WorkflowEngine

/-- A number as written. -/
structure Numeral where
  negative : Bool
  whole : List Nat
  /-- The digits behind the point, if there is one. -/
  fraction : Option (List Nat) := none
  /-- The digits of the exponent and whether it is negative. -/
  exponent : Option (Bool × List Nat) := none
  deriving DecidableEq, Repr

/-- JSON text by its structure. A text or name is `none` when it stands for no string. -/
inductive Document where
  | null
  | bool (b : Bool)
  | number (n : Numeral)
  | text (s : Option String)
  | list (items : List Document)
  | record (members : List (Option String × Document))

namespace Numeral

def maxUnsigned : Nat := 18446744073709551615

/-- Appends digits to an unsigned 64-bit number while they fit. The result counts the digits left over. -/
def absorb : Nat → List Nat → Nat × Nat
  | n, [] => (n, 0)
  | n, d :: ds => if n * 10 + d ≤ maxUnsigned then absorb (n * 10 + d) ds else (n, ds.length + 1)

def digitsValue (ds : List Nat) : Nat := ds.foldl (fun n d => n * 10 + d) 0

/-- An integer token within the signed or unsigned 64-bit range is that integer; any other number
is the double it reads as. `-0` is a double. Numbers too large for a double have no value. -/
def toJson? (n : Numeral) : Option Json :=
  let (significand, dropped) := absorb 0 n.whole
  if n.fraction.isNone && n.exponent.isNone && dropped == 0 then
    if !n.negative then some (.int significand)
    else if significand = 0 ∨ 9223372036854775808 < significand then
      (Double.ofParts? significand 0).map fun x => .double x.neg
    else some (.int (-(significand : Int)))
  else
    let (significand, placed) := match n.fraction with
      | none => (significand, 0)
      | some ds => let (s, left) := absorb significand ds; (s, ds.length - left)
    let power : Int := match n.exponent with
      | none => 0
      | some (negative, ds) => if negative then -(digitsValue ds : Int) else digitsValue ds
    (Double.ofParts? significand ((dropped : Int) - placed + power)).map fun x =>
      .double (if n.negative then x.neg else x)

end Numeral

namespace Document

mutual

/-- The value of a document nested in fewer than `depth` containers. Of two members with one name
the last counts. -/
def toJson? (depth : Nat) : Document → Option Json
  | .null => some .null
  | .bool b => some (.bool b)
  | .number n => n.toJson?
  | .text s => s.map .str
  | .list items =>
    if depth ≤ 1 then none else (toItems? (depth - 1) items).map .arr
  | .record members =>
    if depth ≤ 1 then none else (toMembers? (depth - 1) members).map Json.ofMembers

def toItems? (depth : Nat) : List Document → Option (List Json)
  | [] => some []
  | d :: ds => do return (← toJson? depth d) :: (← toItems? depth ds)

def toMembers? (depth : Nat) : List (Option String × Document) → Option (List (String × Json))
  | [] => some []
  | (name, d) :: rest => do return (← name, ← toJson? depth d) :: (← toMembers? depth rest)

end

end Document

end WorkflowEngine
