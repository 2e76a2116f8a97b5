/-!
Lengths of time in nanoseconds and their text in the largest fitting unit.
-/

namespace WorkflowEngine

/-- A length of time. -/
structure Span where
  nanos : Nat
  deriving DecidableEq, Repr

namespace Span

def ofMillis (n : Nat) : Span := ⟨n * 1000000⟩

def ofSeconds (n : Nat) : Span := ⟨n * 1000000000⟩

def millis (s : Span) : Nat := s.nanos / 1000000

def seconds (s : Span) : Nat := s.nanos / 1000000000

/-- A fraction with the given number of digits, without trailing zeros; empty if it is zero. -/
def fractionText (width n : Nat) : String :=
  let ds := (toString n).toList
  let all := List.replicate (width - ds.length) '0' ++ ds
  let kept := (all.reverse.dropWhile (· == '0')).reverse
  if kept.isEmpty then "" else "." ++ String.ofList kept

/-- Seconds, milliseconds, microseconds or nanoseconds, whichever is the largest unit not above the
length, with the decimals that are exact. -/
def text (s : Span) : String :=
  if 1000000000 ≤ s.nanos then
    toString (s.nanos / 1000000000) ++ fractionText 9 (s.nanos % 1000000000) ++ "s"
  else if 1000000 ≤ s.nanos then
    toString (s.nanos / 1000000) ++ fractionText 6 (s.nanos % 1000000) ++ "ms"
  else if 1000 ≤ s.nanos then
    toString (s.nanos / 1000) ++ fractionText 3 (s.nanos % 1000) ++ "µs"
  else toString s.nanos ++ "ns"

instance : ToString Span := ⟨text⟩

end Span

end WorkflowEngine
