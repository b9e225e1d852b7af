import ApiScaffold.Text.LowerCase
import ApiScaffold.Text.Quoted

/-! Code points: characters, and the surrogates, which stand for a character only in pairs. -/
namespace ApiScaffold.Text

inductive CodePoint where
  | char (c : Char)
  | surrogate (index : Fin 0x800)
  deriving DecidableEq, Repr

namespace CodePoint

def firstSurrogate : Nat := 0xd800

def ofNat (n : Nat) : CodePoint :=
  if h : firstSurrogate ≤ n ∧
    n < firstSurrogate + 0x800 then .surrogate ⟨n - firstSurrogate, by omega⟩
  else .char (Char.ofNat n)

def toChar : CodePoint → Char
  | .char c => c
  | .surrogate _ => '\ufffd'

def ofChars (s : List Char) : List CodePoint :=
  s.map .char

def toChars (s : List CodePoint) : List Char :=
  s.map toChar

/-- The character for two surrogates, of the first and the second half. -/
def pair? (high low : Fin 0x800) : Option Char :=
  if high < 0x400 ∧
    0x400 ≤ low then some (Char.ofNat (0x10000 + 0x400 * high.val + (low.val - 0x400))) else none

/-- A text as characters, with one for each pair of surrogates. -/
def joined : List CodePoint → List Char
  | .surrogate high :: .surrogate low :: rest =>
    match pair? high low with
    | some c => c :: joined rest
    | none => toChar (.surrogate high) :: joined (.surrogate low :: rest)
  | p :: rest => p.toChar :: joined rest
  | [] => []

def escape (quote : Char) : CodePoint → List Char
  | .char c => Text.escape quote c
  | .surrogate index => '\\' :: 'u' :: hexDigits 4 (firstSurrogate + index)

def quote (s : List CodePoint) : List Char :=
  let mark := quoteFor (toChars s)
  mark :: s.flatMap (escape mark) ++ [mark]

/-- The characters between two surrogates, given last to first, in small letters, then
those behind. -/
def lowerBehind (run : List Char) : List CodePoint → List CodePoint
  | [] => ofChars (Text.lower run.reverse)
  | .char c :: rest => lowerBehind (c :: run) rest
  | .surrogate index :: rest =>
    ofChars (Text.lower run.reverse) ++ .surrogate index :: lowerBehind [] rest

def lower (s : List CodePoint) : List CodePoint :=
  lowerBehind [] s

theorem toChars_ofChars (s : List Char) : toChars (ofChars s) = s := by
  induction s with
  | nil => rfl
  | cons c rest ih => simpa [toChars, ofChars, toChar] using ih

theorem joined_ofChars (s : List Char) : joined (ofChars s) = s := by
  induction s with
  | nil => rfl
  | cons c rest ih => simpa [joined, ofChars, toChar] using ih

end CodePoint
end ApiScaffold.Text
