/-!
# Double-precision numbers

A finite double is `± mantissa * 2 ^ exponent`, with a mantissa below `2 ^ 53` and an exponent of
at least `-1074`; unless the exponent is the least one, the mantissa has all 53 bits. A quotient
of natural numbers is rounded to the nearest double, and half way to the even mantissa.
-/

namespace HierarchyLint

inductive Double where
  | nan
  | infinite (negative : Bool)
  | finite (negative : Bool) (mantissa : Nat) (exponent : Int)
  deriving DecidableEq, Repr

namespace Double

def minExponent : Int := -1074

def maxExponent : Int := 971

def zero (negative : Bool) : Double := finite negative 0 minExponent

/-- A power of the base; one if the exponent is negative. -/
def power (base : Nat) (exponent : Int) : Nat := Nat.pow base exponent.toNat

/-- The quotient rounded to the nearest integer, and half way to the even one. -/
def roundDiv (num den : Nat) : Nat :=
  let q := num / den
  let r := num % den
  if 2 * r < den then q
  else if den < 2 * r then q + 1
  else q + q % 2

/-- `num / den` as a multiple of `2 ^ exponent`, rounded. -/
def scaled (num den : Nat) (exponent : Int) : Nat :=
  roundDiv (num * power 2 (-exponent)) (den * power 2 exponent)

/-- The double nearest to `num / den`. -/
def ofRatio (negative : Bool) (num den : Nat) : Double :=
  if num = 0 then zero negative
  else
    let guess := (num.log2 : Int) - (den.log2 : Int) - 53
    let tooFine := den * power 2 (53 + guess) ≤ num * power 2 (-(53 + guess))
    let exponent := max minExponent (if tooFine then guess + 1 else guess)
    let mantissa := scaled num den exponent
    let (mantissa, exponent) :=
      if mantissa = power 2 53 then (power 2 52, exponent + 1) else (mantissa, exponent)
    if maxExponent < exponent then infinite negative else finite negative mantissa exponent

def ofDecimal (negative : Bool) (digits : Nat) (shift : Int) : Double :=
  let size := (Nat.toDigits 10 digits).length
  if digits = 0 ∨ shift + size < -400 then zero negative
  else if 400 < shift then infinite negative
  else ofRatio negative (digits * power 10 shift) (power 10 (-shift))

/-- The double as a quotient, if it is finite. -/
def toRatio? : Double → Option (Int × Nat)
  | finite negative m e =>
    let size : Int := m * power 2 e
    some (if negative then -size else size, power 2 (-e))
  | _ => none

def toInt? (d : Double) : Option Int := do
  let (num, den) ← d.toRatio?
  if num % den = 0 then some (num / den) else none

/-! ## Arithmetic on nonnegative doubles -/

/-- The double nearest to a natural multiple of a nonnegative double. -/
def scaleUp (factor : Nat) : Double → Double
  | finite _ m e => ofRatio false (factor * m * power 2 e) (power 2 (-e))
  | d => d

/-- The double nearest to the sum of two nonnegative doubles. -/
def plus : Double → Double → Double
  | finite _ m e, finite _ n f =>
    ofRatio false
      (m * power 2 e * power 2 (-f) + n * power 2 f * power 2 (-e))
      (power 2 (-e) * power 2 (-f))
  | finite _ _ _, d => d
  | d, _ => d

def withSign (negative : Bool) : Double → Double
  | nan => nan
  | infinite _ => infinite negative
  | finite _ m e => finite negative m e

/-! ## Text -/

structure Decimal where
  digits : Nat
  power : Int

/-- The reals that round to a positive double, as the multiples of `scale / den` between `low` and
`high`; `value` is the double itself. -/
structure Interval where
  low : Nat
  value : Nat
  high : Nat
  den : Nat
  /-- Whether the ends themselves round to the double. -/
  closed : Bool

/-- The interval of `m * 2 ^ e`. Below a power of two the doubles lie twice as close. -/
def interval (m : Nat) (e : Int) : Interval :=
  let unit := power 2 (e - 2)
  let gap := if m = power 2 52 ∧ minExponent < e then 1 else 2
  { low := (4 * m - gap) * unit
    value := 4 * m * unit
    high := (4 * m + 2) * unit
    den := power 2 (2 - e)
    closed := m % 2 == 0 }

def Interval.holds (i : Interval) (num den : Nat) : Bool :=
  let x := num * i.den
  if i.closed then i.low * den ≤ x && x ≤ i.high * den
  else i.low * den < x && x < i.high * den

/-- The number of digits in front of the point; for a value below one, the number of zeros behind
it, negated. -/
def Interval.magnitude (i : Interval) : Int :=
  if i.den ≤ i.value then (Nat.toDigits 10 (i.value / i.den)).length
  else 1 - (Nat.toDigits 10 ((i.den - 1) / i.value)).length

/-- The neighbour of the value among the decimals of `count` digits that lies in the interval;
the nearer one if both do. -/
def Interval.decimal? (i : Interval) (count : Nat) : Option Decimal :=
  let shift := i.magnitude - count
  let up := power 10 shift
  let down := power 10 (-shift)
  let below := i.value * down / (i.den * up)
  let above := below + 1
  let toBelow := i.value * down - below * i.den * up
  let toAbove := above * i.den * up - i.value * down
  match i.holds (below * up) down, i.holds (above * up) down with
  | true, true =>
    if toBelow < toAbove ∨ (toBelow = toAbove ∧ below % 2 = 0) then some ⟨below, shift⟩
    else some ⟨above, shift⟩
  | true, false => some ⟨below, shift⟩
  | false, true => some ⟨above, shift⟩
  | false, false => none

/-- The decimal of fewest digits that reads back as `m * 2 ^ e`. Seventeen digits are enough;
otherwise it would be the exact value. -/
def shortest (m : Nat) (e : Int) : Decimal :=
  let i := interval m e
  ((List.range 17).findSome? fun n => i.decimal? (n + 1)).getD
    ⟨m * power 2 e * power 5 (-e), min e 0⟩

/-- The layout of a decimal: positional as long as the leading digit stands for at least a
ten-thousandth and less than `10 ^ 16`, otherwise with an exponent of at least two digits. -/
def Decimal.layout (d : Decimal) : String :=
  let all := Nat.toDigits 10 d.digits
  let digits := (all.reverse.dropWhile (· == '0')).reverse
  let point := d.power + all.length
  if -4 < point ∧ point ≤ 16 then
    if point ≤ 0 then
      "0." ++ String.ofList (List.replicate (-point).toNat '0' ++ digits)
    else
      let whole := digits.take point.toNat
      let zeros := List.replicate (point.toNat - whole.length) '0'
      let fraction := digits.drop point.toNat
      String.ofList (whole ++ zeros) ++ "."
        ++ (if fraction.isEmpty then "0" else String.ofList fraction)
  else
    let fraction := digits.drop 1
    let power := point - 1
    let powerDigits := List.leftpad 2 '0' (Nat.toDigits 10 power.natAbs)
    String.ofList (digits.take 1)
      ++ (if fraction.isEmpty then "" else "." ++ String.ofList fraction)
      ++ (if power < 0 then "e-" else "e+") ++ String.ofList powerDigits

/-- The shortest text that reads back as the double. -/
def text : Double → String
  | nan => "nan"
  | infinite negative => if negative then "-inf" else "inf"
  | finite negative m e =>
    let size := if m = 0 then "0.0" else (shortest m e).layout
    if negative then "-" ++ size else size

/-- The number that leading digits write, with how many there are, and what follows them. -/
def leadingDigits : List Char → Nat → Nat → Nat × Nat × List Char
  | [], n, count => (n, count, [])
  | c :: cs, n, count =>
    if c.isDigit then leadingDigits cs (10 * n + (c.toNat - 48)) (count + 1)
    else (n, count, c :: cs)

/-- Reads digits with an optional point and an optional exponent. -/
def ofDigits? (negative : Bool) (cs : List Char) : Option Double := do
  let (whole, wholeCount, rest) := leadingDigits cs 0 0
  let (digits, places, rest) :=
    match rest with
    | '.' :: rest => leadingDigits rest whole 0
    | rest => (whole, 0, rest)
  if wholeCount + places = 0 then none
  else match rest with
    | [] => some (ofDecimal negative digits (-places))
    | mark :: rest =>
      if mark ≠ 'e' ∧ mark ≠ 'E' then none
      else
        let (down, rest) :=
          match rest with
          | '-' :: rest => (true, rest)
          | '+' :: rest => (false, rest)
          | rest => (false, rest)
        match leadingDigits rest 0 0 with
        | (power, _ + 1, []) =>
          let power : Int := if down then -power else power
          some (ofDecimal negative digits (power - places))
        | _ => none

def ofText? (s : String) : Option Double :=
  let (negative, cs) :=
    match s.toList with
    | '-' :: cs => (true, cs)
    | '+' :: cs => (false, cs)
    | cs => (false, cs)
  match String.ofList cs with
  | "nan" => some nan
  | "inf" => some (infinite negative)
  | _ => ofDigits? negative cs

end Double

end HierarchyLint
