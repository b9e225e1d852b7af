import ApiScaffold.Text.Printable

/-! Quoted texts and byte strings, with escapes for what does not print. -/
namespace ApiScaffold.Text

/-- The last `width` hexadecimal digits of a number, in lower case. -/
def hexDigits : (width n : Nat) → List Char
  | 0, _ => []
  | width + 1, n => hexDigits width (n / 16) ++ [Nat.digitChar (n % 16)]

/-- The quote for a text: single, unless that occurs in it and the double quote does not. -/
def quoteFor (s : List Char) : Char :=
  if '\'' ∈ s ∧ '"' ∉ s then '"' else '\''

/-- A character as its number, in as many digits as it needs: two, four or eight. -/
def escapeNumber (c : Char) : List Char :=
  if c.toNat < 0x100 then '\\' :: 'x' :: hexDigits 2 c.toNat
  else if c.toNat < 0x10000 then '\\' :: 'u' :: hexDigits 4 c.toNat
  else '\\' :: 'U' :: hexDigits 8 c.toNat

/-- A character between quotes: the quote, the backslash and what does not print are escaped. -/
def escape (quote c : Char) : List Char :=
  if c = quote ∨ c = '\\' then ['\\', c]
  else if c = '\n' then ['\\', 'n']
  else if c = '\r' then ['\\', 'r']
  else if c = '\t' then ['\\', 't']
  else if isPrintable c then [c]
  else escapeNumber c

def quote (s : List Char) : List Char :=
  quoteFor s :: s.flatMap (escape (quoteFor s)) ++ [quoteFor s]

/-- A text in quotes, of which all but ASCII is escaped. -/
def quoteAscii (s : List Char) : List Char :=
  (quote s).flatMap fun c => if c.toNat < 0x80 then [c] else escapeNumber c

/-- A byte between quotes: only printable ASCII stands for itself. -/
def escapeByte (quote : Char) (b : UInt8) : List Char :=
  if b < 0x80 then escape quote (Char.ofNat b.toNat) else '\\' :: 'x' :: hexDigits 2 b.toNat

def quoteBytes (bytes : List UInt8) : List Char :=
  let quote := quoteFor (bytes.map fun b => Char.ofNat b.toNat)
  'b' :: quote :: bytes.flatMap (escapeByte quote) ++ [quote]

def quoteList (texts : List (List Char)) : List Char :=
  '[' :: (", ".toList.intercalate (texts.map quote)) ++ [']']

def quoted (s : String) : String :=
  String.ofList (quote s.toList)

end ApiScaffold.Text
