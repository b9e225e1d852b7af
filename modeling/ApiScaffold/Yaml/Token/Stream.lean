import ApiScaffold.Yaml.Cursor
import ApiScaffold.Yaml.Token.Property
import ApiScaffold.Yaml.Token.Scalar

/-! The tokens of a text. Indentation opens and closes block collections. That a token is the
key of a mapping shows only at the value behind it, so each token has room for tokens put in
front of it later. -/
namespace ApiScaffold.Yaml

/-- A token with the tokens that turned out to stand in front of it. -/
structure Slot where
  before : List Token := []
  token : Token
  deriving DecidableEq, Repr

/-- A token that may turn out to be a key: the number of its slot, whether it has to, and
where it starts. -/
structure KeyMark where
  flow : Nat
  slot : Nat
  required : Bool
  start : Cursor
  deriving DecidableEq, Repr

structure Lexer where
  cursor : Cursor
  /-- The number of open flow collections. -/
  flow : Nat := 0
  /-- The column of the innermost block collection, `-1` outside of all. -/
  indent : Int := -1
  outer : List Int := []
  keyAllowed : Bool := true
  /-- Possible keys, one at most for each number of open flow collections. -/
  marks : List KeyMark := []
  slots : Array Slot := #[]
  deriving DecidableEq, Repr

namespace Lexer

def rest (l : Lexer) : List Char :=
  l.cursor.rest

def skip (l : Lexer) (n : Nat) : Lexer :=
  { l with cursor := l.cursor.skip n }

def push (l : Lexer) (t : Token) : Lexer :=
  { l with slots := l.slots.push { token := t } }

/-- A key stands on one line, in 1024 characters at most. -/
def keyLimit : Nat := 1024

/-- Forgets possible keys that a value can no longer follow. One that had to be a key is a fault. -/
def dropStale (l : Lexer) : Except Fault Lexer :=
  let stale (k : KeyMark) :=
    k.start.line ≠ l.cursor.line || keyLimit < l.cursor.index - k.start.index
  if l.marks.any fun k => stale k && k.required then .error .malformed
  else .ok { l with marks := l.marks.filter (!stale ·) }

/-- Forgets the possible key among the open flow collections. One that had to be a key is a
fault. -/
def dropMark (l : Lexer) : Except Fault Lexer :=
  if l.marks.any fun k => k.flow = l.flow && k.required then .error .malformed
  else .ok { l with marks := l.marks.filter (·.flow ≠ l.flow) }

/-- Marks the next token as a possible key, if keys are allowed here. -/
def markKey (l : Lexer) : Except Fault Lexer :=
  if !l.keyAllowed then .ok l
  else do
    let required := l.flow = 0 && l.indent = l.cursor.column
    let l ← l.dropMark
    return { l with marks := ⟨l.flow, l.slots.size, required, l.cursor⟩ :: l.marks }

/-- Closes the block collections that stand in more than `column`, of which `outer` are the
columns around. -/
def closeFrom (l : Lexer) (column : Int) : List Int → Lexer
  | [] => l
  | next :: outer =>
    if column < l.indent then closeFrom { l.push .blockEnd with indent := next, outer } column outer
      else l

/-- In block context, closes the collections that stand in more than `column`. -/
def unwind (l : Lexer) (column : Int) : Lexer :=
  if l.flow ≠ 0 then l else l.closeFrom column l.outer

/-- Opens a block collection at a column, unless one that stands in as far is open. -/
def indentTo (l : Lexer) (column : Nat) : Lexer × Bool :=
  if l.indent < column then ({ l with outer := l.indent :: l.outer, indent := column }, true)
    else (l, false)

/-- Skips spaces, comments and line ends. In block context a key may start a line. -/
def toNextToken : (bound : Nat) → Lexer → Lexer
  | 0, l => l
  | bound + 1, l =>
    let l := { l with cursor := l.cursor.skipWhile (· = ' ') }
    let l :=
      if l.rest.head? = some '#' then { l with cursor := l.cursor.skipWhile (!isBreak ·) } else l
    if l.rest.head?.any isBreak then
      toNextToken bound { l.skip 1 with keyAllowed := l.keyAllowed || l.flow = 0 }
    else l

/-! The tokens, by their first characters. -/

/-- A mark between documents, which ends all block collections. -/
def documentMark (l : Lexer) (t : Token) : Except Fault Lexer := do
  let l ← (l.unwind (-1)).dropMark
  return { (l.skip 3).push t with keyAllowed := false }

def directive (l : Lexer) : Except Fault Lexer := do
  let l ← (l.unwind (-1)).dropMark
  let (d, n) ← Property.directive (l.rest.drop 1)
  let ignored ← Scalar.ignoredLine (l.rest.drop (1 + n))
  return { (l.skip (1 + n + ignored)).push (.directive d) with keyAllowed := false }

def flowStart (l : Lexer) (t : Token) : Except Fault Lexer := do
  let l ← l.markKey
  return { (l.skip 1).push t with flow := l.flow + 1, keyAllowed := true }

def flowEnd (l : Lexer) (t : Token) : Except Fault Lexer := do
  let l ← l.dropMark
  return { (l.skip 1).push t with flow := l.flow - 1, keyAllowed := false }

def flowEntry (l : Lexer) : Except Fault Lexer := do
  let l ← l.dropMark
  return { (l.skip 1).push .flowEntry with keyAllowed := true }

/-- Opens a block collection at the cursor, if it stands in more than those around. In block context
a collection starts only where a key may. -/
def openBlock (l : Lexer) (t : Token) : Except Fault Lexer :=
  if l.flow ≠ 0 then .ok l
  else if !l.keyAllowed then .error .malformed
  else
    match l.indentTo l.cursor.column with
    | (l, true) => .ok (l.push t)
    | (l, false) => .ok l

def blockEntry (l : Lexer) : Except Fault Lexer := do
  let l ← (← l.openBlock .blockSequence).dropMark
  return { (l.skip 1).push .blockEntry with keyAllowed := true }

def complexKey (l : Lexer) : Except Fault Lexer := do
  let l ← (← l.openBlock .blockMapping).dropMark
  return { (l.skip 1).push .key with keyAllowed := l.flow = 0 }

/-- A value indicator. The token marked as a possible key becomes a key, in a mapping opened
there if need be. -/
def value (l : Lexer) : Except Fault Lexer := do
  match l.marks.find? (·.flow = l.flow) with
  | some k =>
    let l := { l with marks := l.marks.filter (·.flow ≠ l.flow) }
    let (l, opened) := if l.flow = 0 then l.indentTo k.start.column else (l, false)
    let before := if opened then [Token.blockMapping, .key] else [.key]
    let l :=
      { l with slots := l.slots.modify k.slot fun s => { s with before := before ++ s.before } }
    return { (l.skip 1).push .value with keyAllowed := false }
  | none =>
    let l ← (← l.openBlock .blockMapping).dropMark
    return { (l.skip 1).push .value with keyAllowed := l.flow = 0 }

/-- A token that may be a key and that no key follows, read behind some characters. -/
def marked {α : Type} (l : Lexer) (behind : Nat) (read : List Char → Except Fault (α × Nat))
    (token : α → Token) : Except Fault Lexer := do
  let l ← l.markKey
  let (a, n) ← read (l.rest.drop behind)
  return { (l.skip (behind + n)).push (token a) with keyAllowed := false }

def blockScalar (l : Lexer) (folded : Bool) : Except Fault Lexer := do
  let l ← l.dropMark
  let (text, n) ← Scalar.block folded (l.indent + 1).toNat (l.rest.drop 1)
  return { (l.skip (1 + n)).push
    (.scalar (Text.CodePoint.ofChars text) false) with keyAllowed := true }

/-- Reads on in a plain scalar behind some space. In block context its lines stand in more than
the collection. -/
def plainFrom (l : Lexer) (text space : List Char) : (bound : Nat) → Lexer × List Char
  | 0 => (l, text)
  | bound + 1 =>
    let n := if l.rest.head? = some '#' then 0 else Scalar.plainRun (l.flow ≠ 0) l.rest
    if n = 0 then (l, text)
    else
      let text := text ++ space ++ l.rest.take n
      let l := { l.skip n with keyAllowed := false }
      let (space, n, broken) := Scalar.plainSpace l.rest
      let l := { l.skip n with keyAllowed := broken }
      if space.isEmpty || l.rest.head? = some '#' ||
        (l.flow = 0 && (l.cursor.column : Int) < l.indent + 1) then (l, text)
      else plainFrom l text space bound

def plain (l : Lexer) : Except Fault Lexer := do
  let l ← l.markKey
  let (l, text) := l.plainFrom [] [] l.rest.length
  return l.push (.scalar (Text.CodePoint.ofChars text) true)

def startsPlain (l : Lexer) : List Char → Bool
  | [] => false
  | c :: rest =>
    !(c = ' ' || c = '\t' || isBreak c || "-?:,[]\x7b\x7d#&*!|>'\"%@`".toList.contains c) ||
      (!atBlank rest && (c = '-' || l.flow = 0 && (c = '?' || c = ':')))

def token (l : Lexer) : Except Fault Lexer :=
  let s := l.rest
  let behind := s.drop 1
  let atStart := l.cursor.column = 0
  match s.head? with
  | some '%' => if atStart then l.directive else .error .malformed
  | some '[' => l.flowStart .flowSequence
  | some '{' => l.flowStart .flowMapping
  | some ']' => l.flowEnd .flowSequenceEnd
  | some '}' => l.flowEnd .flowMappingEnd
  | some ',' => l.flowEntry
  | some '*' => l.marked 1 Property.name .alias
  | some '&' => l.marked 1 Property.name .anchor
  | some '!' => l.marked 0 Property.tag .tag
  | some '\'' => l.marked 1 (Scalar.quoted false .text) fun s => .scalar s false
  | some '"' => l.marked 1 (Scalar.quoted true .text) fun s => .scalar s false
  | some c =>
    if c = '-' && atStart && atDocumentMark s then l.documentMark .documentStart
    else if c = '.' && atStart && atDocumentMark s then l.documentMark .documentEnd
    else if c = '-' && atBlank behind then l.blockEntry
    else if c = '?' && (l.flow ≠ 0 || atBlank behind) then l.complexKey
    else if c = ':' && (l.flow ≠ 0 || atBlank behind) then l.value
    else if c = '|' && l.flow = 0 then l.blockScalar false
    else if c = '>' && l.flow = 0 then l.blockScalar true
    else if l.startsPlain s then l.plain
    else .error .malformed
  | none => .error .malformed

/-- Reads the next token, or closes what is open at the end of the text. Tells whether that was
reached. A torn text must not come to its end. -/
def fetch (torn : Bool) (l : Lexer) : Except Fault (Lexer × Bool) := do
  let l := toNextToken (l.rest.length + 1) l
  if torn && l.rest.isEmpty then throw .unfinished
  let l ← l.dropStale
  let l := l.unwind l.cursor.column
  if l.rest.isEmpty then return (← (l.unwind (-1)).dropMark, true)
  let l ← l.token
  if torn && l.rest.isEmpty then throw .unfinished
  return (l, false)

/-- Tokens with those that turned out to stand in front of them. -/
def written (slots : List Slot) : List Token :=
  slots.flatMap fun s => s.before ++ [s.token]

/-- The tokens that nothing can be put in front of any more. -/
def settled (l : Lexer) : List Token :=
  let marks := match l.dropStale with
    | .ok l => l.marks
    | .error _ => l.marks
  written (l.slots.toList.take (marks.foldl (fun n k => min n k.slot) l.slots.size))

/-- Reads all tokens, or those before a fault. Each takes one character at least, so there are no
more than characters. What breaks off has the fault that tore the text. -/
def tokens (tear : Option Fault) : (bound : Nat) → Lexer → List Token × Option Fault
  | 0, l => (l.settled, some .malformed)
  | bound + 1, l =>
    match fetch tear.isSome l with
    | .ok (l, true) => (written l.slots.toList, none)
    | .ok (l, false) => tokens tear bound l
    | .error .unfinished => (l.settled, some (tear.getD .malformed))
    | .error fault => (l.settled, some fault)

end Lexer

/-- The tokens of a text, which may start with a byte order mark, and the fault that ends them if
there is one. A text may be torn by a fault of its own. -/
def Token.ofText (s : List Char) (tear : Option Fault) : List Token × Option Fault :=
  let start : Cursor := { rest := s }
  let start := if s.head? = some '\ufeff' then start.next else start
  Lexer.tokens tear (s.length + 1) { cursor := start }

end ApiScaffold.Yaml
