import Jal.Number.Shortest

namespace Jal
namespace Number

def digitValue (c : Char) : Nat := c.toNat - '0'.toNat

def ofDigits (digits : List Char) : Nat :=
  digits.foldl (fun n c => 10 * n + digitValue c) 0

/-- No midpoint between two doubles has more digits than this. -/
def maxDigits : Nat := 800

/-- The decimal that the digits before and after a dot stand for. Digits past `maxDigits` only say
whether there is anything more: a single `1` in their place leaves the decimal on the same side of
every midpoint, and so it rounds the same. -/
def Decimal.ofDigits (whole fraction : List Char) : Decimal :=
  let digits := (whole ++ fraction).dropWhile (· == '0')
  let tail := digits.drop maxDigits
  if tail.isEmpty then ⟨Number.ofDigits digits, -(fraction.length : Int)⟩
  else
    let more := if tail.all (· == '0') then 0 else 1
    ⟨10 * Number.ofDigits (digits.take maxDigits) + more,
      (tail.length : Int) - 1 - fraction.length⟩

/-- The nearest double. Decimals far outside the range of doubles are decided by their size alone,
so that no huge power of ten is ever computed. -/
def Decimal.toFloat (d : Decimal) (negative : Bool) : Float :=
  let size : Int := (Nat.toDigits 10 d.coefficient).length + d.exponent
  if d.coefficient == 0 || size < -400 then ofRatio negative 0 1
  else if 400 < size then infinity negative
  else if 0 ≤ d.exponent then ofRatio negative (d.coefficient * tenPow d.exponent.toNat) 1
  else ofRatio negative d.coefficient (tenPow (-d.exponent).toNat)

def ofLiteral (whole fraction : List Char) : Float :=
  (Decimal.ofDigits whole fraction).toFloat false

/-- An optional sign, `true` for a minus, and what follows it. -/
def splitSign : List Char → Bool × List Char
  | '-' :: rest => (true, rest)
  | '+' :: rest => (false, rest)
  | cs => (false, cs)

/-- The size of an exponent. Digits that follow a value of `65536` or more are passed over. -/
def ofExponentDigits (digits : List Char) : Nat :=
  digits.foldl (fun n c => if n < 65536 then 10 * n + digitValue c else n) 0

/-- Nothing, or a mark, an optional sign and at least one digit. -/
def readExponent? : List Char → Option Int
  | [] => some 0
  | c :: rest =>
    if c == 'e' || c == 'E' then
      let (negative, digits) := splitSign rest
      if !digits.isEmpty && digits.all Char.isDigit then
        let size : Int := ofExponentDigits digits
        some (if negative then -size else size)
      else none
    else none

def splitFraction : List Char → List Char × List Char
  | '.' :: rest => (rest.takeWhile Char.isDigit, rest.dropWhile Char.isDigit)
  | cs => ([], cs)

def readDecimal? (cs : List Char) : Option Decimal := do
  let whole := cs.takeWhile Char.isDigit
  let (fraction, rest) := splitFraction (cs.dropWhile Char.isDigit)
  if whole.isEmpty && fraction.isEmpty then none
  else
    let shift ← readExponent? rest
    let d := Decimal.ofDigits whole fraction
    some { d with exponent := d.exponent + shift }

def readWord? (cs : List Char) (negative : Bool) : Option Float :=
  let word := String.ofList (cs.map Char.toLower)
  if word == "inf" || word == "infinity" then some (infinity negative)
  else if word == "nan" then some (Float.ofBits 0x7FF8000000000000)
  else none

def read? (cs : List Char) : Option Float :=
  let (negative, rest) := splitSign cs
  match readDecimal? rest with
  | some d => some (d.toFloat negative)
  | none => readWord? rest negative

end Number
end Jal
