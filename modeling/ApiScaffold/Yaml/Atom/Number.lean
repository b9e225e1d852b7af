import ApiScaffold.Decimal.Binary64
import ApiScaffold.Text.Blank
import ApiScaffold.Text.CodePoint
import ApiScaffold.Text.Digit
import ApiScaffold.Text.LineBreak
import ApiScaffold.Yaml.Fault

/-! Numbers, from their texts. -/
namespace ApiScaffold.Yaml

open Text (CodePoint)

namespace Number

def splitSign {α : Type} (sign? : α → Option Bool) : List α → Bool × List α
  | [] => (false, [])
  | a :: s =>
    match sign? a with
    | some negative => (negative, s)
    | none => (false, a :: s)

def sign? (c : Char) : Option Bool :=
  if c = '-' then some true else if c = '+' then some false else none

def negateIf (negative : Bool) (n : Int) : Int :=
  if negative then -n else n

/-- What a character counts as within a number: decimal digits of all scripts are the same, and so
are blanks behind ASCII. What else is behind ASCII is no part of a number. -/
def plainCharacter (c : Char) : Char :=
  if c.toNat < 0x7f then c
  else if Text.isBlank c then ' '
  else
    match Text.digit? c with
    | some n => Nat.digitChar n
    | none => '?'

def isMargin (c : Char) : Bool :=
  c = ' ' || c = '\t' || c = '\n' || c = '\r' || c = '\x0b' || c = '\x0c'

def plain (s : List CodePoint) : List Char :=
  let s := (CodePoint.toChars s).map plainCharacter
  ((s.dropWhile isMargin).reverse.dropWhile isMargin).reverse

def digitValue? (base : Nat) (c : Char) : Option Nat :=
  let value :=
    if c.isDigit then some (c.toNat - '0'.toNat)
    else if 'a' ≤ c.toLower && c.toLower ≤ 'z' then some (c.toLower.toNat - 'a'.toNat + 10)
    else none
  value.filter (· < base)

/-- What may stand in front of the digits of a base, in small letters. -/
def baseMark (base : Nat) : List Char :=
  if base = 2 then ['0', 'b'] else if base = 8 then ['0', 'o']
    else if base = 16 then ['0', 'x'] else []

/-- An integer in some base, possibly with a sign, a mark of the base and blanks around. In base ten
there is a limit to the digits. -/
def readInteger (base : Nat) (s : List CodePoint) : Except Fault Int :=
  let (negative, digits) := splitSign sign? (plain s)
  let mark := baseMark base
  let digits :=
    if !mark.isEmpty && mark.isPrefixOf (digits.map Char.toLower) then
      digits.drop mark.length else digits
  let values := (digits.takeWhile fun c => (digitValue? base c).isSome).filterMap (digitValue? base)
  if base = 10 && digitLimit < values.length then .error (.digits (some values.length))
  else if values.isEmpty || values.length < digits.length then .error (.integer base s)
  else .ok (negateIf negative (Int.ofNat (values.foldl (fun n d => base * n + d) 0)))

/-- The value of parts of which each counts sixty of the next. -/
def sexagesimal (parts : List Int) : Int :=
  parts.foldl (fun n part => 60 * n + part) 0

/-- A decimal number without a sign: digits with or without a point, and an exponent. -/
def decimal? (s : List Char) : Option (Nat × Int) := do
  let whole := s.takeWhile Char.isDigit
  let rest := s.dropWhile Char.isDigit
  let (fraction, rest) := match rest with
    | '.' :: rest => (rest.takeWhile Char.isDigit, rest.dropWhile Char.isDigit)
    | rest => ([], rest)
  if whole.isEmpty && fraction.isEmpty then none
  let exponent : Int ← match rest with
    | [] => some 0
    | 'e' :: rest =>
      let (negative, digits) := splitSign sign? rest
      if !digits.isEmpty && digits.all Char.isDigit then
        some (negateIf negative (Text.number digits)) else none
    | _ => none
  return (Text.number (whole ++ fraction), exponent - fraction.length)

def readFloat (s : List CodePoint) : Except Fault Binary64 :=
  let (negative, digits) := splitSign sign? (plain s)
  if digits = "inf".toList || digits = "infinity".toList then .ok (.infinite negative)
  else if digits = "nan".toList then .ok .notANumber
  else
    match decimal? digits with
    | some (n, exponent) => .ok (Binary64.ofDecimal negative n exponent)
    | none => .error (.float s)

/-- The sum of parts of which each counts sixty of the next, added up from the last. What one of
them counts must be a float. -/
def sexagesimalFloat (parts : List Binary64) : Except Fault Binary64 := do
  let (sum, _) ← parts.reverse.foldlM (fun (sum, unit) (part : Binary64) =>
    match Binary64.ofInt unit with
    | .finite s m e => .ok (Binary64.add sum (part.mul (.finite s m e)), 60 * unit)
    | _ => .error .scale) (Binary64.ofInt 0, (1 : Int))
  return sum

end Number
end ApiScaffold.Yaml
