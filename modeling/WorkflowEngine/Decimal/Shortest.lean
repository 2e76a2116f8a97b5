import WorkflowEngine.Decimal.Double

/-!
The shortest decimal text of a double that reads back to the same double.

A double stands for the interval of reals that round to it. `Binary.readsBack` tests a decimal
against that interval in exact integer arithmetic, `Binary.shortest` looks for the fewest digits
that pass, and `Double.text` lays them out: positionally from `10^-5` up to `10^16`, otherwise with
a signed exponent.
-/

namespace WorkflowEngine.Decimal

/-- A finite non-negative binary64 value, `m * 2^q`. -/
structure Binary where
  m : Nat
  q : Int
  /-- The gap to the value below is half the gap to the value above. -/
  narrowBelow : Bool

/-- The magnitude of a finite double. -/
def Binary.ofDouble (x : Double) : Binary :=
  let e := ((x.bits >>> 52) &&& 0x7FF).toNat
  let f := (x.bits &&& 0xFFFFFFFFFFFFF).toNat
  if e == 0 then ⟨f, -1074, false⟩ else ⟨0x10000000000000 + f, (e : Int) - 1075, f == 0 && e > 1⟩

/-- The decimal `digits * 10^exp`. -/
structure Digits where
  digits : Nat
  exp : Int
  deriving DecidableEq, Repr

-- Powers are those of the core library, whichever others are in scope.
attribute [local instance (2000)] instPowNat

/-- Compares `a * 10^i` with `n * 2^j`, exactly. -/
def compareScaled (a : Nat) (i : Int) (n : Nat) (j : Int) : Ordering :=
  compare (a * 10 ^ i.toNat * 2 ^ (-j).toNat) (n * 2 ^ j.toNat * 10 ^ (-i).toNat)

/-- The decimal `d` lies among the reals that round to `x` (to nearest, ties to even). -/
def Binary.readsBack (x : Binary) (d : Digits) : Bool :=
  let lo := if x.narrowBelow then 4 * x.m - 1 else 4 * x.m - 2
  let hi := 4 * x.m + 2
  let closed := x.m % 2 == 0
  let below := compareScaled d.digits d.exp lo (x.q - 2)
  let above := compareScaled d.digits d.exp hi (x.q - 2)
  (below == .gt || (closed && below == .eq)) && (above == .lt || (closed && above == .eq))

/-- The quotient of `m * 2^q` by `10^e`, rounded down. -/
def Binary.gridFloor (x : Binary) (e : Int) : Nat :=
  (x.m * 2 ^ x.q.toNat * 10 ^ (-e).toNat) / (10 ^ e.toNat * 2 ^ (-x.q).toNat)

/-- The least `k` with `m * 2^q < 10^k`, for a positive value: an estimate from the binary length,
raised until it is large enough. -/
def Binary.scale (x : Binary) : Int :=
  let estimate : Int := ((x.m.log2 : Int) + x.q) * 30103 / 100000 - 1
  raise 4 estimate
where
  raise : Nat → Int → Int
    | 0, k => k
    | fuel + 1, k => if compareScaled 1 k x.m x.q == .gt then k else raise fuel (k + 1)

/-- The best of the two neighbours of `x` on the grid of multiples of `10^e`, if one reads back:
the nearer of the two when both do, the even one when they are equally near. -/
def Binary.onGrid? (x : Binary) (e : Int) : Option Digits :=
  let below : Digits := ⟨x.gridFloor e, e⟩
  let above : Digits := ⟨below.digits + 1, e⟩
  match x.readsBack below, x.readsBack above with
  | false, false => none
  | true, false => some below
  | false, true => some above
  | true, true =>
    match compareScaled (below.digits + above.digits) e (2 * x.m) x.q with
    | .gt => some below
    | .lt => some above
    | .eq => some (if below.digits % 2 == 0 then below else above)

/-- Moves trailing zeros of the digits into the exponent. -/
def Digits.strip (d : Digits) : Digits :=
  if h : d.digits ≠ 0 ∧ d.digits % 10 = 0 then
    Digits.strip ⟨d.digits / 10, d.exp + 1⟩
  else d
termination_by d.digits
decreasing_by exact Nat.div_lt_self (by omega) (by decide)

/-- The fewest digits that read back to the positive value `x`. Seventeen always do; should none be
found, the exact value is taken. -/
def Binary.shortest (x : Binary) : Digits :=
  let k := x.scale
  match (List.range 17).findSome? fun (n : Nat) => x.onGrid? (k - ((n : Int) + 1)) with
  | some d => d.strip
  | none => if x.q < 0 then ⟨x.m * 5 ^ x.q.natAbs, x.q⟩ else ⟨x.m * 2 ^ x.q.toNat, 0⟩

/-- Lays out a decimal: positionally, with a fraction `.0` for an integer, when the leading digit
stands for a power of ten from `10^-5` to `10^15`; otherwise as `d.ddde+x`. -/
def Digits.layout (d : Digits) : String :=
  let ds := (Nat.toDigits 10 d.digits)
  let lead : Int := (ds.length : Int) + d.exp - 1
  if -5 ≤ lead ∧ lead < 16 then
    if 0 ≤ d.exp then String.ofList (ds ++ List.replicate d.exp.toNat '0') ++ ".0"
    else if 0 ≤ lead then
      let whole := lead.toNat + 1
      String.ofList (ds.take whole) ++ "." ++ String.ofList (ds.drop whole)
    else "0." ++ String.ofList (List.replicate (-lead - 1).toNat '0' ++ ds)
  else
    let mantissa := match ds with
      | [c] => String.ofList [c]
      | c :: rest => String.ofList (c :: '.' :: rest)
      | [] => "0"
    mantissa ++ "e" ++ (if lead < 0 then "-" else "+") ++ toString lead.natAbs

end WorkflowEngine.Decimal

namespace WorkflowEngine

/-- The shortest text that reads back to the double, with its sign. -/
def Double.text (x : Double) : String :=
  let unsigned :=
    if x.magnitudeBits == 0 then "0.0" else (Decimal.Binary.ofDouble x).shortest.layout
  if x.isNegative then "-" ++ unsigned else unsigned

end WorkflowEngine
