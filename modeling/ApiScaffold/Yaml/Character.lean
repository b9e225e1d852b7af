/-! Characters of YAML. -/
namespace ApiScaffold.Yaml

def isAllowed (c : Char) : Bool :=
  c = '\t' || c = '\n' || c = '\r' || (' ' ≤ c && c ≤ '~') || c = '\u0085' ||
    ('\u00a0' ≤ c && c ≤ '\ufffd') || 0x10000 ≤ c.toNat

def isBreak (c : Char) : Bool :=
  c = '\n' || c = '\u0085' || c = '\u2028' || c = '\u2029'

/-- What a line end contributes to a scalar: a separator for lines or paragraphs stays, any other
reads as a line feed. -/
def breakText (c : Char) : Char :=
  if c = '\u2028' || c = '\u2029' then c else '\n'

def atSpace (s : List Char) : Bool :=
  s.head?.all fun c => c = ' ' || isBreak c

def atBlank (s : List Char) : Bool :=
  s.head?.all fun c => c = ' ' || c = '\t' || isBreak c

def atDocumentMark : List Char → Bool
  | '-' :: '-' :: '-' :: rest => atBlank rest
  | '.' :: '.' :: '.' :: rest => atBlank rest
  | _ => false

def isNameCharacter (c : Char) : Bool :=
  c.isAlphanum || c = '-' || c = '_'

/-- The characters of tags, apart from escapes. -/
def isTagCharacter (c : Char) : Bool :=
  c.isAlphanum || "-;/?:@&=+$,_.!~*'()[]".toList.contains c

def countWhile (test : Char → Bool) (s : List Char) : Nat :=
  (s.takeWhile test).length

def hexValue? (c : Char) : Option Nat :=
  if c.isDigit then some (c.toNat - '0'.toNat)
  else if 'a' ≤ c && c ≤ 'f' then some (c.toNat - 'a'.toNat + 10)
  else if 'A' ≤ c && c ≤ 'F' then some (c.toNat - 'A'.toNat + 10)
  else none

end ApiScaffold.Yaml
