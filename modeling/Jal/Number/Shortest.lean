import Jal.Number.Binary

namespace Jal
namespace Number

/-- `coefficient * 10 ^ exponent`. -/
structure Decimal where
  coefficient : Nat
  exponent : Int
deriving Repr, DecidableEq

/-- The reals that round to one double, in units of a quarter of the gap above it: `low` and `high`
are the midpoints to the neighbours, and they belong to it iff its mantissa is even. -/
structure Basin where
  low : Nat
  value : Nat
  high : Nat
  closed : Bool
  exponent : Int

/-- The gap below a power of two is half the gap above it, unless the number below has no leading
bit. -/
def basin (mantissa : Nat) (exponent : Int) : Basin :=
  let narrow := mantissa == twoPow 52 && exponent != -1074
  { low := 4 * mantissa - (if narrow then 1 else 2)
    value := 4 * mantissa
    high := 4 * mantissa + 2
    closed := mantissa % 2 == 0
    exponent := exponent - 2 }

def commonScale (p k : Int) : Nat × Nat :=
  (twoPow p.toNat * tenPow (-k).toNat, tenPow k.toNat * twoPow (-p).toNat)

/-- The multiple of `10 ^ k` in the basin that is nearest to the value, if there is one. Of the two
neighbours of the value the upper one wins a tie. -/
def Basin.on (b : Basin) (k : Int) : Option Decimal :=
  let (unit, step) := commonScale b.exponent k
  let inside (n : Nat) : Bool :=
    if b.closed then b.low * unit ≤ n * step && n * step ≤ b.high * unit
    else b.low * unit < n * step && n * step < b.high * unit
  let below := b.value * unit / step
  let above := below + 1
  let nearerBelow := 2 * (b.value * unit % step) < step
  if inside below && (nearerBelow || !inside above) then some ⟨below, k⟩
  else if inside above then some ⟨above, k⟩
  else none

/-- A power of ten above `mantissa * 2 ^ exponent`: `30103 / 100000` is a little more than the
decimal logarithm of two. -/
def powerAbove (mantissa : Nat) (exponent : Int) : Int :=
  (mantissa.log2 + 1 + exponent) * 30103 / 100000 + 2

/-- The coarsest decimal grid with a point in the basin gives the fewest digits; seventeen digits
are always enough. -/
def shortest (mantissa : Nat) (exponent : Int) : Decimal :=
  let top := powerAbove mantissa exponent
  let grids := (List.range 24).map fun (i : Nat) => top - (i : Int)
  (grids.findSome? (basin mantissa exponent).on).getD ⟨0, 0⟩

def Decimal.layout (d : Decimal) : String :=
  let digits := Nat.toDigits 10 d.coefficient
  let places := (-d.exponent).toNat
  let padded := List.replicate (places + 1 - digits.length) '0' ++ digits
  String.ofList <|
    if 0 ≤ d.exponent then digits ++ List.replicate d.exponent.toNat '0'
    else padded.take (padded.length - places) ++ '.' :: padded.drop (padded.length - places)

/-- Not-a-number never shows a sign; zero shows one. -/
def text (x : Float) : String :=
  match parts x with
  | .nan => "NaN"
  | .infinite negative => if negative then "-inf" else "inf"
  | .finite negative mantissa exponent =>
    let magnitude := if mantissa == 0 then "0" else (shortest mantissa exponent).layout
    if negative then "-" ++ magnitude else magnitude

end Number
end Jal
