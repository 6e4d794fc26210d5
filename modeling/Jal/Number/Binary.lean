namespace Jal
namespace Number

def twoPow (n : Nat) : Nat := Nat.pow 2 n

def tenPow (n : Nat) : Nat := Nat.pow 10 n

inductive Parts where
  | nan
  | infinite (negative : Bool)
  | finite (negative : Bool) (mantissa : Nat) (exponent : Int)
deriving Repr, DecidableEq

/-- A biased exponent of `0` marks the numbers without a leading bit; they share the scale of the
smallest numbers with one. -/
def parts (x : Float) : Parts :=
  let bits := x.toBits.toNat
  let negative := bits / twoPow 63 == 1
  let biased : Nat := bits / twoPow 52 % twoPow 11
  let fraction := bits % twoPow 52
  if biased == 2047 then
    if fraction == 0 then .infinite negative else .nan
  else if biased == 0 then .finite negative fraction (-1074)
  else .finite negative (twoPow 52 + fraction) ((biased : Int) - 1075)

/-- The integer that the number is, if it is one; both zeros are `0`. -/
def toInt? (x : Float) : Option Int :=
  match parts x with
  | .finite negative mantissa exponent =>
    let whole : Option Nat :=
      if 0 ≤ exponent then some (mantissa * twoPow exponent.toNat)
      else
        let unit := twoPow (-exponent).toNat
        if mantissa % unit == 0 then some (mantissa / unit) else none
    whole.map fun n => if negative then -(n : Int) else n
  | _ => none

/-- The quotient rounded to the nearest integer, a half to the even neighbour. -/
def divNearest (num den : Nat) : Nat :=
  let quotient := num / den
  let twice := 2 * (num % den)
  if twice < den then quotient
  else if den < twice then quotient + 1
  else quotient + quotient % 2

/-- `num / den` as `n / d * 2 ^ exponent`. -/
def descale (num den : Nat) (exponent : Int) : Nat × Nat :=
  if 0 ≤ exponent then (num, den * twoPow exponent.toNat)
  else (num * twoPow (-exponent).toNat, den)

/-- The largest `t` with `2 ^ t ≤ num / den`, for positive `num` and `den`. -/
def log2Ratio (num den : Nat) : Int :=
  let t : Int := num.log2 - den.log2
  let (n, d) := descale num den t
  if n < d then t - 1 else t

/-- The double nearest to `num / den`, a half to the even mantissa. A mantissa that is rounded up
to `2 ^ 53` carries into the exponent, which is why both are added; past the largest exponent the
sum is that of infinity. -/
def ofRatio (negative : Bool) (num den : Nat) : Float :=
  let magnitude : Nat :=
    if num == 0 then 0
    else
      let exponent := max (log2Ratio num den - 52) (-1074)
      let (n, d) := descale num den exponent
      min ((exponent + 1074).toNat * twoPow 52 + divNearest n d) (2047 * twoPow 52)
  Float.ofBits (UInt64.ofNat (if negative then twoPow 63 + magnitude else magnitude))

def infinity (negative : Bool) : Float := ofRatio negative (twoPow 1024) 1

end Number
end Jal
