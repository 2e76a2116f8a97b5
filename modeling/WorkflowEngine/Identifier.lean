import WorkflowEngine.Fault
import WorkflowEngine.Json.Printer

/-!
Identifiers of tenants, runs, workflows, steps, workers and dispatchers: 128-bit numbers, written as
32 hexadecimal digits in hyphenated groups. They are read in any of the four customary forms
(hyphenated, plain digits, in braces, with a `urn:uuid:` lead) and in any letter case.
-/

namespace WorkflowEngine

/-- A 128-bit identifier. -/
structure Identifier where
  value : Nat
  deriving DecidableEq, Repr, Hashable, Ord

namespace Identifier

def nil : Identifier := ⟨0⟩

instance : Inhabited Identifier := ⟨nil⟩

/-- The digits of `n` in base 16, exactly `width` of them. -/
def hexDigits : Nat → Nat → List Char
  | 0, _ => []
  | width + 1, n => hexDigits width (n / 16) ++ [Json.hexDigit (n % 16)]

/-- The hyphenated lower-case form. -/
def text (id : Identifier) : String :=
  let ds := hexDigits 32 id.value
  String.ofList (ds.take 8 ++ '-' :: (ds.drop 8).take 4 ++ '-' :: (ds.drop 12).take 4 ++
    '-' :: (ds.drop 16).take 4 ++ '-' :: ds.drop 20)

instance : ToString Identifier := ⟨text⟩

def digit? (c : Char) : Option Nat :=
  if '0' ≤ c ∧ c ≤ '9' then some (c.toNat - 48)
  else if 'a' ≤ c ∧ c ≤ 'f' then some (c.toNat - 87)
  else if 'A' ≤ c ∧ c ≤ 'F' then some (c.toNat - 55)
  else none

def ofDigits? (ds : List Char) : Option Identifier := do
  guard (ds.length = 32)
  let values ← ds.mapM digit?
  return ⟨values.foldl (fun n d => n * 16 + d) 0⟩

/-- Reads the hyphenated form. -/
def ofHyphenated? (s : List Char) : Option Identifier := do
  guard (s.length = 36)
  guard ([8, 13, 18, 23].all fun i => s[i]? == some '-')
  ofDigits? (s.take 8 ++ (s.drop 9).take 4 ++ (s.drop 14).take 4 ++ (s.drop 19).take 4 ++ s.drop 24)

def urnLead : List Char := ['u', 'r', 'n', ':', 'u', 'u', 'i', 'd', ':']

/-- Reads any of the four forms. -/
def ofChars? (s : List Char) : Option Identifier :=
  if s.length = 32 then ofDigits? s
  else if s.length = 36 then ofHyphenated? s
  else if s.length = 38 then
    if s.head? = some '{' ∧ s.getLast? = some '}' then ofHyphenated? ((s.drop 1).take 36) else none
  else if s.length = 45 then
    if (s.take 9).map Char.toLower = urnLead then ofHyphenated? (s.drop 9) else none
  else none

def parse? (s : String) : Option Identifier := ofChars? s.toList

/-- The `n`-th identifier drawn from the generator. -/
def generated (n : Nat) : Identifier := ⟨0x00000000_0000_4000_8000_000000000000 + n⟩

/-- What an identifier stands for. -/
inductive Role where
  | tenant
  | task
  | dag
  | workflow
  | step
  | worker
  | dispatcher
  deriving DecidableEq, Repr

def Role.label : Role → String
  | .tenant => "tenant ID"
  | .task => "task external ID"
  | .dag => "DAG external ID"
  | .workflow => "workflow ID"
  | .step => "step ID"
  | .worker => "worker ID"
  | .dispatcher => "dispatcher ID"

/-- Reads an identifier of the given role. -/
def parse (role : Role) (s : String) : Except ValueFault Identifier :=
  match parse? s with
  | some id => .ok id
  | none => .error (.invalidId ("invalid " ++ role.label ++ " '" ++ s ++ "'"))

end Identifier

/-- A source of fresh identifiers, by how many were drawn from it. -/
structure IdSource where
  drawn : Nat := 0
  deriving DecidableEq, Repr

namespace IdSource

def draw (ids : IdSource) : Identifier × IdSource :=
  (Identifier.generated (ids.drawn + 1), ⟨ids.drawn + 1⟩)

/-- The source after some draws. -/
def skip (ids : IdSource) (n : Nat) : IdSource := ⟨ids.drawn + n⟩

end IdSource

abbrev TenantId := Identifier
abbrev ExternalId := Identifier
abbrev WorkflowId := Identifier
abbrev StepId := Identifier
abbrev WorkerId := Identifier
abbrev DispatcherId := Identifier

end WorkflowEngine
