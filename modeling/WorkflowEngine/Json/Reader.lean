import WorkflowEngine.Json.Document

/-!
Reading JSON text. The input is a list of characters in which `none` stands for a byte that belongs
to no character; such a byte may occur inside a quoted text only, and the text then stands for no
string. `Document.ofBytes?` reads a whole payload and accepts nothing after the value but blanks.
-/

namespace WorkflowEngine.Document

/-- Characters, with `none` for a stray byte. -/
abbrev Input := List (Option Char)

def isBlank (c : Char) : Bool := c = ' ' || c = '\n' || c = '\r' || c = '\t'

def skipBlanks : Input → Input
  | some c :: rest => if isBlank c then skipBlanks rest else some c :: rest
  | input => input

/-- A character of a quoted text, half of a surrogate pair, or a stray byte. -/
inductive Piece where
  | char (c : Char)
  | half (unit : Nat)
  | stray

def hexValue (c : Char) : Option Nat :=
  if '0' ≤ c ∧ c ≤ '9' then some (c.toNat - 48)
  else if 'a' ≤ c ∧ c ≤ 'f' then some (c.toNat - 87)
  else if 'A' ≤ c ∧ c ≤ 'F' then some (c.toNat - 55)
  else none

def hexUnit (a b c d : Char) : Option Nat := do
  return (((← hexValue a) * 16 + (← hexValue b)) * 16 + (← hexValue c)) * 16 + (← hexValue d)

def pieceOfUnit (unit : Nat) : Piece :=
  if 0xD800 ≤ unit ∧ unit < 0xE000 then .half unit else .char (Char.ofNat unit)

/-- The character a short escape stands for. -/
def shortEscape : Char → Option Char
  | '"' => some '"'
  | '\\' => some '\\'
  | '/' => some '/'
  | 'b' => some '\x08'
  | 'f' => some '\x0c'
  | 'n' => some '\n'
  | 'r' => some '\r'
  | 't' => some '\t'
  | _ => none

/-- Reads the rest of a quoted text, up to and with the closing quote. -/
def readPieces : Input → Option (List Piece × Input)
  | some '"' :: rest => some ([], rest)
  | some '\\' :: some 'u' :: some a :: some b :: some c :: some d :: rest => do
    let unit ← hexUnit a b c d
    let (pieces, rest) ← readPieces rest
    return (pieceOfUnit unit :: pieces, rest)
  | some '\\' :: some e :: rest => do
    let c ← shortEscape e
    let (pieces, rest) ← readPieces rest
    return (.char c :: pieces, rest)
  | some c :: rest =>
    if c.toNat < 0x20 ∨ c = '\\' then none
    else do
      let (pieces, rest) ← readPieces rest
      return (.char c :: pieces, rest)
  | none :: rest => do
    let (pieces, rest) ← readPieces rest
    return (.stray :: pieces, rest)
  | [] => none

/-- The characters that the pieces stand for: two halves of a pair make one, a lone half or a stray
byte makes none. -/
def joinPieces : List Piece → Option (List Char)
  | [] => some []
  | .char c :: rest => (joinPieces rest).map (c :: ·)
  | .half hi :: .half lo :: rest =>
    if hi < 0xDC00 ∧ 0xDC00 ≤ lo then
      (joinPieces rest).map (Char.ofNat (0x10000 + (hi - 0xD800) * 0x400 + (lo - 0xDC00)) :: ·)
    else none
  | _ :: _ => none

def readText (input : Input) : Option (Option String × Input) :=
  (readPieces input).map fun (pieces, rest) => ((joinPieces pieces).map String.ofList, rest)

/-- Splits off the digits at the front. -/
def readDigits : Input → List Nat × Input
  | some c :: rest =>
    if c.isDigit then let (ds, rest) := readDigits rest; ((c.toNat - 48) :: ds, rest)
    else ([], some c :: rest)
  | input => ([], input)

def readFraction : Input → Option (Option (List Nat) × Input)
  | some '.' :: rest =>
    match readDigits rest with
    | ([], _) => none
    | (ds, rest) => some (some ds, rest)
  | input => some (none, input)

def readExponent : Input → Option (Option (Bool × List Nat) × Input)
  | some 'e' :: rest | some 'E' :: rest =>
    let (negative, rest) := match rest with
      | some '+' :: rest => (false, rest)
      | some '-' :: rest => (true, rest)
      | rest => (false, rest)
    match readDigits rest with
    | ([], _) => none
    | (ds, rest) => some (some (negative, ds), rest)
  | input => some (none, input)

/-- Reads a number behind its sign: no leading zeros, and digits on both sides of a point. -/
def readNumeral (negative : Bool) (input : Input) : Option (Document × Input) :=
  match readDigits input with
  | ([], _) => none
  | (0 :: _ :: _, _) => none
  | (whole, rest) => do
    let (fraction, rest) ← readFraction rest
    let (exponent, rest) ← readExponent rest
    return (.number { negative, whole, fraction, exponent }, rest)

/-- Reads the given word. -/
def readWord (word : List Char) (d : Document) (input : Input) : Option (Document × Input) :=
  if word.map some <+: input then some (d, input.drop word.length) else none

mutual

/-- Reads one value after blanks. The first argument bounds the recursion. -/
def readValue : Nat → Input → Option (Document × Input)
  | 0, _ => none
  | fuel + 1, input =>
    match skipBlanks input with
    | some '"' :: rest => (readText rest).map fun (s, rest) => (.text s, rest)
    | some '[' :: rest =>
      match skipBlanks rest with
      | some ']' :: rest => some (.list [], rest)
      | rest => (readItems fuel rest).map fun (items, rest) => (.list items, rest)
    | some '{' :: rest =>
      match skipBlanks rest with
      | some '}' :: rest => some (.record [], rest)
      | rest => (readMembers fuel rest).map fun (members, rest) => (.record members, rest)
    | some '-' :: rest => readNumeral true rest
    | some 'n' :: rest => readWord ['u', 'l', 'l'] .null rest
    | some 't' :: rest => readWord ['r', 'u', 'e'] (.bool true) rest
    | some 'f' :: rest => readWord ['a', 'l', 's', 'e'] (.bool false) rest
    | rest => readNumeral false rest

/-- Reads values up to the closing bracket. -/
def readItems : Nat → Input → Option (List Document × Input)
  | 0, _ => none
  | fuel + 1, input => do
    let (d, rest) ← readValue fuel input
    match skipBlanks rest with
    | some ',' :: rest => (readItems fuel rest).map fun (ds, rest) => (d :: ds, rest)
    | some ']' :: rest => some ([d], rest)
    | _ => none

/-- Reads named values up to the closing brace. -/
def readMembers : Nat → Input → Option (List (Option String × Document) × Input)
  | 0, _ => none
  | fuel + 1, input =>
    match skipBlanks input with
    | some '"' :: rest => do
      let (name, rest) ← readText rest
      match skipBlanks rest with
      | some ':' :: rest => do
        let (d, rest) ← readValue fuel rest
        match skipBlanks rest with
        | some ',' :: rest => (readMembers fuel rest).map fun (ms, rest) => ((name, d) :: ms, rest)
        | some '}' :: rest => some ([(name, d)], rest)
        | _ => none
      | _ => none
    | _ => none

end

/-- Reads a whole text. Each value and each place in a list costs a character, so twice the length
bounds the recursion. -/
def ofInput? (input : Input) : Option Document := do
  let (d, rest) ← readValue (2 * input.length + 2) input
  if (skipBlanks rest).isEmpty then some d else none

def ofText? (s : String) : Option Document := ofInput? (s.toList.map some)

/-- The character that starts a list of bytes in UTF-8 and the number of bytes it takes. -/
def leadingChar? (bytes : List UInt8) : Option (Char × Nat) :=
  (List.range 4).findSome? fun n =>
    match String.fromUTF8? (ByteArray.mk (bytes.take (n + 1)).toArray) with
    | some s => match s.toList with
      | [c] => some (c, n + 1)
      | _ => none
    | none => none

/-- The characters of a list of bytes, each byte that starts none being stray. -/
def charactersOf : Nat → List UInt8 → Input
  | 0, _ => []
  | _ + 1, [] => []
  | fuel + 1, b :: rest =>
    match leadingChar? (b :: rest) with
    | some (c, n) => some c :: charactersOf fuel ((b :: rest).drop n)
    | none => none :: charactersOf fuel rest

/-- Reads a whole payload. -/
def ofBytes? (bytes : ByteArray) : Option Document :=
  match String.fromUTF8? bytes with
  | some s => ofText? s
  | none => ofInput? (charactersOf bytes.size bytes.toList)

end WorkflowEngine.Document
