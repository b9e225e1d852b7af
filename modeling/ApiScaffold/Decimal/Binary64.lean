/-! Binary64 numbers: exact values, and the number nearest to a quotient. -/
namespace ApiScaffold

/-- A binary64 number. A finite one has the value `mantissa * 2 ^ exponent`, with a sign. -/
inductive Binary64 where
  | finite (negative : Bool) (mantissa : Nat) (exponent : Int)
  | infinite (negative : Bool)
  | notANumber
  deriving DecidableEq, Repr

namespace Binary64

def precision : Nat := 53

def leastExponent : Int := -1074

def greatestExponent : Int := 971

/-- The integer nearest to a quotient, an even one where two are as near. -/
def roundQuotient (n d : Nat) : Nat :=
  let q := n / d
  let r := n % d
  if 2 * r < d then q
  else if d < 2 * r then q + 1
  else q + q % 2

/-- The quotient `n / (d * 2 ^ e)` as a numerator and a denominator. -/
def scale (n d : Nat) (e : Int) : Nat × Nat :=
  if 0 ≤ e then (n, d <<< e.toNat) else (n <<< (-e).toNat, d)

/-- The largest `l` such that `2 ^ l` is at most `n / d`. -/
def floorLog2 (n d : Nat) : Int :=
  let l : Int := n.log2 - d.log2
  let (n, d) := scale n d l
  if d ≤ n then l else l - 1

def ofQuotient (negative : Bool) (n d : Nat) : Binary64 :=
  if n = 0 then .finite negative 0 leastExponent
  else
    let e := max leastExponent (floorLog2 n d - (precision - 1))
    let (n, d) := scale n d e
    let m := roundQuotient n d
    let (m, e) := if m = 1 <<< precision then (1 <<< (precision - 1), e + 1) else (m, e)
    if greatestExponent < e then .infinite negative else .finite negative m e

/-- The number nearest to `digits * 10 ^ exponent`. An exponent out of all range is not worked
out. -/
def ofDecimal (negative : Bool) (digits : Nat) (exponent : Int) : Binary64 :=
  let size : Int := (Nat.toDigits 10 digits).length + exponent
  if digits = 0 then ofQuotient negative 0 1
  else if 400 < size then .infinite negative
  else if size < -400 then ofQuotient negative 0 1
  else if 0 ≤ exponent then ofQuotient negative (digits * Nat.pow 10 exponent.toNat) 1
  else ofQuotient negative digits (Nat.pow 10 (-exponent).toNat)

def ofScaled (n : Int) (e : Int) : Binary64 :=
  if 0 ≤ e then ofQuotient (n < 0) (n.natAbs <<< e.toNat) 1
    else ofQuotient (n < 0) n.natAbs (1 <<< (-e).toNat)

def ofInt (n : Int) : Binary64 :=
  ofScaled n 0

def neg : Binary64 → Binary64
  | .finite s m e => .finite (!s) m e
  | .infinite s => .infinite (!s)
  | .notANumber => .notANumber

def signed (negative : Bool) (m : Nat) : Int :=
  if negative then -m else m

def mul : Binary64 → Binary64 → Binary64
  | .finite s m e, .finite t n f =>
    if m * n = 0 then .finite (s != t) 0 leastExponent
      else ofScaled (signed (s != t) (m * n)) (e + f)
  | .notANumber, _ | _, .notANumber => .notANumber
  | .infinite s, .finite t n _ | .finite t n _, .infinite s =>
    if n = 0 then .notANumber else .infinite (s != t)
  | .infinite s, .infinite t => .infinite (s != t)

def add : Binary64 → Binary64 → Binary64
  | .finite s m e, .finite t n f =>
    let least := min e f
    let sum := signed s (m <<< (e - least).toNat) + signed t (n <<< (f - least).toNat)
    if sum = 0 then .finite (s && t) 0 leastExponent else ofScaled sum least
  | .notANumber, _ | _, .notANumber => .notANumber
  | .infinite s, .infinite t => if s = t then .infinite s else .notANumber
  | .infinite s, _ | _, .infinite s => .infinite s

def isZero : Binary64 → Bool
  | .finite _ m _ => m = 0
  | _ => false

def toInt? : Binary64 → Option Int
  | .finite s m e =>
    if 0 ≤ e then some (signed s (m <<< e.toNat))
    else if m % (1 <<< (-e).toNat) = 0 then some (signed s (m >>> (-e).toNat))
    else none
  | _ => none

/-- Whether two numbers are equal. Zeros are, whatever their signs; what is not a number
equals nothing. -/
def same : Binary64 → Binary64 → Bool
  | .finite s m e, .finite t n f => (m = 0 && n = 0) || (s = t && m = n && e = f)
  | .infinite s, .infinite t => s = t
  | _, _ => false

end Binary64
end ApiScaffold
