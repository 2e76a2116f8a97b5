/-!
Double-precision numbers, kept as their bit pattern so that two of them can be told apart and
compared without a detour through machine arithmetic.

`Double.ofParts?` reads a decimal given as digits and a power of ten: the digits are rounded to a
double once, and the power of ten is applied by one multiplication or division (by two divisions
when it is below `10^-308`). A magnitude beyond the largest double is refused.
-/

namespace WorkflowEngine

/-- A finite or infinite binary64 number, by its bits. -/
structure Double where
  bits : UInt64
  deriving DecidableEq, Repr

namespace Double

def ofFloat (x : Float) : Double := ⟨x.toBits⟩

def toFloat (x : Double) : Float := Float.ofBits x.bits

def isNegative (x : Double) : Bool := x.bits >>> 63 == 1

/-- The bits without the sign. -/
def magnitudeBits (x : Double) : UInt64 := x.bits &&& 0x7FFFFFFFFFFFFFFF

def neg (x : Double) : Double := ⟨x.bits ^^^ 0x8000000000000000⟩

def zero : Double := ⟨0⟩

/-- Numeric equality of numbers that are not NaN: equal bits, or both a zero. -/
def same (x y : Double) : Bool :=
  x.bits == y.bits || (x.magnitudeBits == 0 && y.magnitudeBits == 0)

/-- The power of ten `10^n` for `n ≤ 308`, correctly rounded. -/
def powerOfTen (n : Nat) : Float := Float.ofScientific 1 false n

/-- Divides by `10^n`, taking out factors of `10^308` while the exponent is larger than that.
A zero stays a zero, so the recursion may stop there. -/
def divideByPower (x : Float) (n : Nat) : Float :=
  if 308 < n then
    if x == 0.0 then x else divideByPower (x / powerOfTen 308) (n - 308)
  else x / powerOfTen n
termination_by n
decreasing_by omega

/-- The double that the unsigned decimal `significand * 10^exponent` reads as, or `none` if it is
too large. The significand is below `2^64`. -/
def ofParts? (significand : Nat) (exponent : Int) : Option Double :=
  let digits := significand.toUInt64.toFloat
  if exponent < 0 then
    -- Past a few divisions by `10^308` nothing is left of any significand, so cap the exponent.
    some (ofFloat (divideByPower digits (min exponent.natAbs 1500)))
  else if exponent ≤ 308 then
    let x := digits * powerOfTen exponent.toNat
    if x.isInf then none else some (ofFloat x)
  else if significand = 0 then some zero
  else none

end Double

end WorkflowEngine
