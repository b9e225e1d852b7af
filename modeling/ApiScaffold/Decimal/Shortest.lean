import ApiScaffold.Decimal.Binary64

/-! Shortest decimals: the fewest digits that read back as the same binary64 number, and
their notation. -/
namespace ApiScaffold.Decimal

/-- The numbers between which all read back as a finite number, as multiples of a power of two: the
lower end, the value, the upper end, the exponent of two, and whether the ends read back as well. -/
structure Interval where
  low : Nat
  value : Nat
  high : Nat
  exponent : Int
  closed : Bool
  deriving DecidableEq, Repr

/-- The interval around a number. Below a power of two the gap to the next number is half as
wide. -/
def Interval.around (mantissa : Nat) (exponent : Int) : Interval :=
  let narrow := mantissa = 1 <<< (Binary64.precision - 1) ∧ Binary64.leastExponent < exponent
  { low := 4 * mantissa - (if narrow then 1 else 2)
    value := 4 * mantissa
    high := 4 * mantissa + 2
    exponent := exponent - 2
    closed := mantissa % 2 = 0 }

/-- A positive number as decimal digits, of which the first is not zero, with a point in front of
them and a power of ten. -/
structure Digits where
  digits : Nat
  power : Int
  deriving DecidableEq, Repr

/-- The multiples of `10 ^ place` on either side of the value that lie in the interval, the nearer
one first. Of two as near the even one is first. -/
def Interval.onGrid (i : Interval) (place : Int) : List Nat :=
  let unit (e : Int) (b : Nat) : Nat × Nat :=
    if 0 ≤ e then (b.pow e.toNat, 1) else (1, b.pow (-e).toNat)
  let (twoUp, twoDown) := unit i.exponent 2
  let (tenUp, tenDown) := unit place 10
  let num := twoUp * tenDown
  let den := twoDown * tenUp
  let below := i.value * num / den
  let rest := i.value * num % den
  let inside (k : Nat) : Bool :=
    if i.closed then i.low * num ≤ k * den && k * den ≤ i.high * num
    else i.low * num < k * den && k * den < i.high * num
  let order := if 2 * rest < den || 2 * rest = den && below % 2 = 0 then [below, below + 1]
    else [below + 1, below]
  order.filter inside

/-- The least `p` such that the value is less than `10 ^ p`, by steps down from a bound. -/
def tenPower (i : Interval) : (steps : Nat) → Int → Int
  | 0, p => p
  | steps + 1, p =>
    let num := if 0 ≤ i.exponent then i.value <<< i.exponent.toNat else i.value
    let den := if 0 ≤ i.exponent then 1 else 1 <<< (-i.exponent).toNat
    let p' := p - 1
    let fits :=
      if 0 ≤ p' then num < den * Nat.pow 10 p'.toNat else num * Nat.pow 10 (-p').toNat < den
    if fits then tenPower i steps p' else p

/-- Tries one digit more until a decimal with so many digits reads back. Seventeen always do. -/
def search (i : Interval) (power : Int) : (left count : Nat) → Digits
  | 0, count => ⟨0, power - count⟩
  | left + 1, count =>
    match i.onGrid (power - count) with
    | k :: _ => ⟨k, power - count⟩
    | [] => search i power left (count + 1)

def trim : (bound : Nat) → Digits → Digits
  | 0, d => d
  | bound + 1, d =>
    if d.digits ≠ 0 && d.digits % 10 = 0 then trim bound ⟨d.digits / 10, d.power + 1⟩ else d

/-- The shortest decimal of a positive number, and of those the nearest. The logarithm of two is a
little less than 0.30103, which gives a bound for the power of ten. -/
def shortest (mantissa : Nat) (exponent : Int) : Digits :=
  let i := Interval.around mantissa exponent
  let start : Int := (i.value.log2 + i.exponent) * 30103 / 100000 + 2
  trim 20 (search i (tenPower i 4 start) 17 1)

/-- Digits with a point: positional between `10 ^ -4` and `10 ^ 16`, and else with an exponent of
two digits or more. -/
def write (d : Digits) : String :=
  let digits := Nat.toDigits 10 d.digits
  let count := digits.length
  let point : Int := count + d.power
  let zeros (n : Int) : List Char := List.replicate n.toNat '0'
  let text :=
    if -4 < point ∧ point ≤ 16 then
      if point ≤ 0 then '0' :: '.' :: zeros (-point) ++ digits
      else if count ≤ point.toNat then digits ++ zeros (point - count) ++ ['.', '0']
      else digits.take point.toNat ++ '.' :: digits.drop point.toNat
    else
      let exponent := point - 1
      let size := Nat.toDigits 10 exponent.natAbs
      let size := if size.length < 2 then '0' :: size else size
      let fraction := if count = 1 then [] else '.' :: digits.drop 1
      digits.take 1 ++ fraction ++ 'e' :: (if exponent < 0 then '-' else '+') :: size
  String.ofList text

end ApiScaffold.Decimal

namespace ApiScaffold

def Binary64.text : Binary64 → String
  | .finite negative m e =>
    (if negative then "-" else "") ++ if m = 0 then "0.0" else Decimal.write (Decimal.shortest m e)
  | .infinite negative => if negative then "-inf" else "inf"
  | .notANumber => "nan"

end ApiScaffold
