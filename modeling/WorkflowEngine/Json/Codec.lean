import WorkflowEngine.Json.Printer
import WorkflowEngine.Json.Reader

/-!
Typed payloads: how a value is written as JSON and read from a document.

A record is written as an object. It is read from an object, where members of other names are
ignored and a name given twice is refused, or from an array of its fields in order. Documents nested
in 128 containers or more are refused.
-/

namespace WorkflowEngine

/-- The number of containers a payload may be nested in, plus one. -/
def nestingLimit : Nat := 128

/-- Reads a value from a document found at a place with that many levels left. -/
abbrev Decoder (α : Type) := Nat → Document → Option α

/-- A type with a written form. -/
class Codec (α : Type) where
  encode : α → Json
  decode : Decoder α

export Codec (encode)

namespace Decoder

def json : Decoder Json := Document.toJson?

def text : Decoder String
  | _, .text s => s
  | _, _ => none

def bool : Decoder Bool
  | _, .bool b => some b
  | _, _ => none

/-- An integer token between two bounds. -/
def intBetween (lo hi : Int) : Decoder Int
  | _, .number n => match n.toJson? with
    | some (.int i) => if lo ≤ i ∧ i ≤ hi then some i else none
    | _ => none
  | _, _ => none

def int64 : Decoder Int := intBetween (-9223372036854775808) 9223372036854775807

def int32 : Decoder Int := intBetween (-2147483648) 2147483647

def natBelow (bound : Nat) : Decoder Nat := fun depth d =>
  (intBetween 0 (bound - 1) depth d).map Int.toNat

def nat32 : Decoder Nat := natBelow UInt32.size

def nat64 : Decoder Nat := natBelow UInt64.size

/-- Text that a reader accepts. -/
def parsed {α : Type} (read : String → Option α) : Decoder α := fun depth d => (text depth d).bind read

/-- Null, or a value. -/
def optional {α : Type} (inner : Decoder α) : Decoder (Option α)
  | _, .null => some none
  | depth, d => (inner depth d).map some

def list {α : Type} (inner : Decoder α) : Decoder (List α)
  | depth, .list items => if depth ≤ 1 then none else items.mapM (inner (depth - 1))
  | _, _ => none

/-- A map from texts, in the order of the names; of two entries with one name the last counts. -/
def textMap : Decoder (List (String × String))
  | depth, .record members =>
    if depth ≤ 1 then none else do
      let entries ← members.mapM fun (name, d) => do return (← name, ← text (depth - 1) d)
      return entries.foldl (fun acc e => place e acc) []
  | _, _ => none
where
  place (e : String × String) : List (String × String) → List (String × String)
    | [] => [e]
    | x :: rest =>
      if e.1 < x.1 then e :: x :: rest
      else if e.1 == x.1 then e :: rest
      else x :: place e rest

/-- A named constant: its name, or an object with null under the name. -/
def constant {α : Type} (named : String → Option α) : Decoder α
  | _, .text s => s.bind named
  | depth, .record [(name, .null)] => if depth ≤ 1 then none else name.bind named
  | _, _ => none

end Decoder

/-- The fields of a record as found in a document, with the levels left below it. -/
structure Fields where
  depth : Nat
  /-- Whether the fields were given by position, so that none may be left out. -/
  positional : Bool
  found : List (String × Document)

namespace Fields

/-- Finds the named fields in an object or in an array. -/
def of? (names : List String) : Decoder Fields
  | depth, .record members =>
    if depth ≤ 1 then none else do
      let named ← members.mapM fun (name, d) => name.map (·, d)
      let found := named.filter (names.contains ·.1)
      if (found.map (·.1)).Nodup then some ⟨depth - 1, false, found⟩ else none
  | depth, .list items =>
    if depth ≤ 1 ∨ names.length < items.length then none
    else some ⟨depth - 1, true, names.zip items⟩
  | _, _ => none

def find? (fields : Fields) (name : String) : Option Document :=
  (fields.found.find? (·.1 == name)).map (·.2)

def required {α : Type} (fields : Fields) (name : String) (decode : Decoder α) : Option α :=
  (fields.find? name).bind (decode fields.depth)

/-- A field that may be null, or left out of an object. -/
def optional {α : Type} (fields : Fields) (name : String) (decode : Decoder α) : Option (Option α) :=
  match fields.find? name with
  | some d => decode.optional fields.depth d
  | none => if fields.positional then none else some none

/-- A field that has a default when it is left out. -/
def withDefault {α : Type} (fields : Fields) (name : String) (default : α) (decode : Decoder α) :
    Option α :=
  match fields.find? name with
  | some d => decode fields.depth d
  | none => some default

end Fields

namespace Codec

/-- Reads a value from the bytes of a payload. -/
def ofBytes? {α : Type} [Codec α] (bytes : ByteArray) : Option α :=
  (Document.ofBytes? bytes).bind (Codec.decode nestingLimit)

/-- The bytes of a payload. -/
def toBytes {α : Type} [Codec α] (a : α) : ByteArray := (Codec.encode a).text.toUTF8

instance : Codec Json where
  encode := id
  decode := Decoder.json

end Codec

/-- The payloads that hold a value of the type, in order; the others are dropped. -/
def decodePayloads (α : Type) [Codec α] (payloads : List ByteArray) : List α :=
  payloads.filterMap Codec.ofBytes?

end WorkflowEngine
