import WorkflowEngine.Calendar.Date
import WorkflowEngine.Calendar.Span

/-!
Instants of UTC, counted in nanoseconds from 1970-01-01T00:00:00Z, and their text. `Instant.parse?`
reads a date, a time with an optional fraction and an offset; `Instant.text` writes the instant in
UTC with 0, 3, 6 or 9 digits of fraction, the fewest that are exact.
-/

namespace WorkflowEngine

/-- An instant, in nanoseconds from 1970-01-01T00:00:00Z. -/
structure Instant where
  nanos : Int
  deriving DecidableEq, Repr, Ord

namespace Instant

instance : Inhabited Instant := ⟨⟨0⟩⟩

instance : LT Instant := ⟨fun a b => a.nanos < b.nanos⟩
instance : LE Instant := ⟨fun a b => a.nanos ≤ b.nanos⟩
instance (a b : Instant) : Decidable (a < b) := inferInstanceAs (Decidable (a.nanos < b.nanos))
instance (a b : Instant) : Decidable (a ≤ b) := inferInstanceAs (Decidable (a.nanos ≤ b.nanos))

def epoch : Instant := ⟨0⟩

def nanosPerDay : Int := 86400000000000

def date (t : Instant) : Date := ⟨t.nanos / nanosPerDay⟩

/-- The instants that the calendar covers. -/
def inRange (nanos : Int) : Bool :=
  decide (Date.minDay * nanosPerDay ≤ nanos) && decide (nanos < (Date.maxDay + 1) * nanosPerDay)

/-- The instant some nanoseconds later, if the calendar covers it. -/
def addNanos? (t : Instant) (n : Int) : Option Instant :=
  if inRange (t.nanos + n) then some ⟨t.nanos + n⟩ else none

def add (t : Instant) (s : Span) : Instant := ⟨t.nanos + s.nanos⟩

/-- The largest number of whole seconds that can be added to an instant. -/
def maxSeconds : Int := 9223372036854775

/-- The instant some seconds later, or `none` for a number of seconds or an instant out of range. -/
def addSeconds? (t : Instant) (seconds : Int) : Option Instant :=
  if -maxSeconds ≤ seconds ∧ seconds ≤ maxSeconds then t.addNanos? (seconds * 1000000000) else none

/-- The fraction of a second with the fewest of 0, 3, 6 and 9 digits that are exact. -/
def fractionText (n : Nat) : String :=
  if n = 0 then ""
  else if n % 1000000 = 0 then "." ++ Date.padded 3 (n / 1000000)
  else if n % 1000 = 0 then "." ++ Date.padded 6 (n / 1000)
  else "." ++ Date.padded 9 n

def text (t : Instant) : String :=
  let inDay := (t.nanos % nanosPerDay).toNat
  let second := inDay / 1000000000
  t.date.text ++ "T" ++ Date.padded 2 (second / 3600) ++ ":" ++ Date.padded 2 (second / 60 % 60) ++
    ":" ++ Date.padded 2 (second % 60) ++ fractionText (inDay % 1000000000) ++ "Z"

instance : ToString Instant := ⟨text⟩

/-! ### Reading -/

def digitsValue (ds : List Char) : Nat := ds.foldl (fun n c => n * 10 + (c.toNat - 48)) 0

/-- Reads between one and `most` digits. -/
def readNumber (most : Nat) (s : List Char) : Option (Nat × List Char) :=
  let ds := (s.take most).takeWhile Char.isDigit
  if ds.isEmpty then none else some (digitsValue ds, s.drop ds.length)

def skipSpaces (s : List Char) : List Char :=
  s.dropWhile fun c => c = ' ' || c = '\t' || c = '\n' || c = '\r' || c = '\x0b' || c = '\x0c'

def expect (c : Char) : List Char → Option (List Char)
  | d :: rest => if c = d then some rest else none
  | [] => none

/-- Reads a year: up to four digits, or a sign and any number of digits. -/
def readYear (s : List Char) : Option (Int × List Char) :=
  match skipSpaces s with
  | '-' :: rest => (readNumber rest.length rest).map fun (n, rest) => (-(n : Int), rest)
  | '+' :: rest => (readNumber rest.length rest).map fun (n, rest) => ((n : Int), rest)
  | s => (readNumber 4 s).map fun (n, rest) => ((n : Int), rest)

/-- Reads a two-digit field. -/
def readField (s : List Char) : Option (Nat × List Char) := readNumber 2 (skipSpaces s)

def readDate (s : List Char) : Option (Date × List Char) := do
  let (year, s) ← readYear s
  let (month, s) ← readField (← expect '-' (skipSpaces s))
  let (day, s) ← readField (← expect '-' (skipSpaces s))
  return (← Date.ofYmd? year month day, s)

-- Powers are those of the core library, whichever others are in scope.
attribute [local instance (2000)] instPowNat

/-- Reads a fraction of a second; digits behind the ninth are ignored. -/
def readFraction : List Char → Option (Nat × List Char)
  | '.' :: s =>
    let ds := (s.take 9).takeWhile Char.isDigit
    if ds.isEmpty then none
    else some (digitsValue ds * 10 ^ (9 - ds.length), (s.drop ds.length).dropWhile Char.isDigit)
  | s => some (0, s)

/-- Reads an offset from UTC, in seconds: `Z`, `UTC`, or signed hours and minutes. -/
def readOffset (s : List Char) : Option (Int × List Char) :=
  match s with
  | 'Z' :: rest | 'z' :: rest => some (0, rest)
  | [] => none
  | sign :: rest =>
    if (s.take 3).map Char.toUpper = ['U', 'T', 'C'] then some (0, s.drop 3)
    else do
      let direction : Int ← if sign = '+' then some 1 else if sign = '-' ∨ sign = '−' then some (-1) else none
      let hours := rest.take 2
      guard (hours.length = 2 ∧ hours.all Char.isDigit)
      let rest := (rest.drop 2).dropWhile fun c => c = ':' || c = ' '
      let minutes := rest.take 2
      guard (minutes.length = 2 ∧ minutes.all Char.isDigit ∧ digitsValue minutes < 60)
      let seconds := digitsValue hours * 3600 + digitsValue minutes * 60
      guard (seconds < 86400)
      return (direction * seconds, rest.drop 2)

/-- Reads an instant. Blanks may stand between the parts, and a blank in place of the `T`. -/
def parse? (s : String) : Option Instant := do
  let (date, s) ← readDate s.toList
  let s ← match s with
    | c :: rest => if c = 'T' ∨ c = 't' ∨ c = ' ' then some rest else none
    | [] => none
  let (hour, s) ← readField s
  let (minute, s) ← readField (← expect ':' (skipSpaces s))
  let (second, s) ← readField (← expect ':' (skipSpaces s))
  guard (hour < 24 ∧ minute < 60 ∧ second < 60)
  let (fraction, s) ← readFraction s
  let (offset, s) ← readOffset (skipSpaces s)
  guard (skipSpaces s).isEmpty
  epoch.addNanos? (date.day * nanosPerDay +
    ((hour * 3600 + minute * 60 + second : Nat) - offset : Int) * 1000000000 + fraction)

end Instant

namespace Date

/-- Reads a day in the form `YYYY-MM-DD`. -/
def parse? (s : String) : Option Date := do
  let (date, rest) ← Instant.readDate s.toList
  guard (Instant.skipSpaces rest).isEmpty
  return date

end Date

end WorkflowEngine
