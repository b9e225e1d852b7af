import ApiScaffold.Yaml.Character
import ApiScaffold.Yaml.Fault

/-! The written forms of scalars. Each reader gives the text of a scalar and the number of
characters it takes. -/
namespace ApiScaffold.Yaml.Scalar

open Text (CodePoint)

/-- What a run of line ends within a scalar stands for: the first one alone is a space; if more
follow it is dropped, unless it is a separator. -/
def fold (first : Char) (more : List Char) : List Char :=
  if breakText first ≠ '\n' then breakText first :: more
  else if more.isEmpty then [' ']
  else more

/-! Quoted scalars. -/

/-- Where a reader of a quoted scalar stands: in text, in blanks within a line, behind line ends
that fold or that an escape takes away, or within the digits of an escape. -/
inductive QuotedState where
  | text
  | blanks (run : List Char)
  | folded (first : Char) (more : List Char)
  | joined (more : List Char)
  | digits (left value : Nat)
  deriving DecidableEq, Repr

/-- What blanks and line ends amount to once text follows. -/
def QuotedState.flush : QuotedState → List Char
  | .text => []
  | .blanks run => run
  | .folded first more => fold first more
  | .joined more => more
  | .digits _ _ => []

/-- Blanks before or behind line ends are dropped. -/
def QuotedState.blank (c : Char) : QuotedState → QuotedState
  | .text => .blanks [c]
  | .blanks run => .blanks (run ++ [c])
  | s => s

def QuotedState.lineEnd (c : Char) : QuotedState → QuotedState
  | .folded first more => .folded first (more ++ [breakText c])
  | .joined more => .joined (more ++ [breakText c])
  | _ => .folded c []

def escaped? : Char → Option Char
  | '0' => some '\x00'
  | 'a' => some '\x07'
  | 'b' => some '\x08'
  | 't' => some '\t'
  | '\t' => some '\t'
  | 'n' => some '\n'
  | 'v' => some '\x0b'
  | 'f' => some '\x0c'
  | 'r' => some '\r'
  | 'e' => some '\x1b'
  | ' ' => some ' '
  | '"' => some '"'
  | '\\' => some '\\'
  | '/' => some '/'
  | 'N' => some '\u0085'
  | '_' => some '\u00a0'
  | 'L' => some '\u2028'
  | 'P' => some '\u2029'
  | _ => none

def escapeDigits? : Char → Option Nat
  | 'x' => some 2
  | 'u' => some 4
  | 'U' => some 8
  | _ => none

/-- What was read of a quoted scalar, and the number of characters that it took. -/
abbrev Quoted := Except Fault (List CodePoint × Nat)

/-- Puts code points in front of what is read behind some characters. -/
def emitPoints (points : List CodePoint) (taken : Nat) (read : Quoted) : Quoted :=
  read.map fun (rest, n) => (points ++ rest, taken + n)

def emit (text : List Char) (taken : Nat) (read : Quoted) : Quoted :=
  emitPoints (CodePoint.ofChars text) taken read

def escapeLimit : Nat := 0x7fffffff

def codePoint (n : Nat) : Except Fault CodePoint :=
  if escapeLimit < n then .error .codePointSize
  else if 0x10ffff < n then .error .codePoint
  else .ok (.ofNat n)

/-- Reads a quoted scalar behind its opening quote, to its closing quote. -/
def quoted (double : Bool) : QuotedState → List Char → Quoted
  | _, [] => .error .unfinished
  | .digits left value, c :: rest =>
    match hexValue? c with
    | none => .error .malformed
    | some digit =>
      let value := 16 * value + digit
      if 1 < left then emit [] 1 (quoted double (.digits (left - 1) value) rest)
      else
        match codePoint value with
        | .error fault => .error fault
        | .ok point => emitPoints [point] 1 (quoted double .text rest)
  | s, c :: rest =>
    if c = '\'' && !double then
      match rest with
      | '\'' :: rest => emit (s.flush ++ ['\'']) 2 (quoted double .text rest)
      | _ => .ok (CodePoint.ofChars s.flush, 1)
    else if c = '"' && double then .ok (CodePoint.ofChars s.flush, 1)
    else if c = ' ' || c = '\t' then emit [] 1 (quoted double (s.blank c) rest)
    else if isBreak c then
      if atDocumentMark rest then .error .malformed
        else emit [] 1 (quoted double (s.lineEnd c) rest)
    else if c = '\\' && double then
      match rest with
      | [] => .error .unfinished
      | c :: rest =>
        match escaped? c, escapeDigits? c with
        | some e, _ => emit (s.flush ++ [e]) 2 (quoted double .text rest)
        | none, some n => emit s.flush 2 (quoted double (.digits n 0) rest)
        | none, none =>
          if isBreak c && !atDocumentMark rest then emit s.flush 2 (quoted double (.joined []) rest)
          else .error .malformed
    else emit (s.flush ++ [c]) 1 (quoted double .text rest)

/-! Plain scalars. -/

/-- Whether a plain scalar ends in front of a text. In flow context brackets, commas and question
marks end it. -/
def plainEnds (flow : Bool) : List Char → Bool
  | [] => true
  | ':' :: rest => atBlank rest || flow && rest.head?.any (",[]\x7b\x7d".toList.contains ·)
  | c :: _ => c = ' ' || c = '\t' || isBreak c || flow && ",?[]\x7b\x7d".toList.contains c

/-- The number of characters until a plain scalar ends or comes to a blank. -/
def plainRun (flow : Bool) : List Char → Nat
  | [] => 0
  | c :: rest => if plainEnds flow (c :: rest) then 0 else plainRun flow rest + 1

/-- Line ends and the blanks between them: the line ends, the number of characters, and whether a
mark between documents follows. -/
def lineEnds : List Char → List Char × Nat × Bool
  | [] => ([], 0, false)
  | c :: rest =>
    if c = ' ' then
      let (more, n, marked) := lineEnds rest
      (more, n + 1, marked)
    else if isBreak c then
      if atDocumentMark rest then ([breakText c], 1, true)
      else
        let (more, n, marked) := lineEnds rest
        (breakText c :: more, n + 1, marked)
    else ([], 0, false)

/-- The space between two parts of a plain scalar: what it stands for, the number of characters, and
whether it goes over a line end. -/
def plainSpace (s : List Char) : List Char × Nat × Bool :=
  let blanks := s.takeWhile (· = ' ')
  match s.drop blanks.length with
  | [] => (blanks, blanks.length, false)
  | c :: rest =>
    if !isBreak c then (blanks, blanks.length, false)
    else if atDocumentMark rest then ([], blanks.length + 1, true)
    else
      let (more, n, marked) := lineEnds rest
      (if marked then [] else fold c more, blanks.length + 1 + n, true)

/-! Block scalars. -/

/-- What becomes of the line ends behind the last line: all but one are dropped, or all, or none. -/
inductive Chomping where
  | clip
  | strip
  | keep
  deriving DecidableEq, Repr

/-- Reads the marks behind the indicator of a block scalar: how to chomp, and how far lines stand in
if that is written. -/
def blockHeader (s : List Char) : Except Fault ((Chomping × Option Nat) × Nat) :=
  let chomping? : Char → Option Chomping
    | '+' => some .keep
    | '-' => some .strip
    | _ => none
  let digit? (c : Char) : Option Nat := if c.isDigit then some (c.toNat - '0'.toNat) else none
  let first := s.head?
  let second := s.tail.head?
  let read : (Chomping × Option Nat) × Nat :=
    match first.bind chomping?, first.bind digit? with
    | some chomping, _ =>
      match second.bind digit? with
      | some n => ((chomping, some n), 2)
      | none => ((chomping, none), 1)
    | none, some n =>
      match second.bind chomping? with
      | some chomping => ((chomping, some n), 2)
      | none => ((.clip, some n), 1)
    | none, none => ((.clip, none), 0)
  if read.1.2 = some 0 || !atSpace (s.drop read.2) then .error .malformed else .ok read

/-- The number of characters in the rest of a line that holds nothing but spaces and a comment,
with its end. -/
def ignoredLine (s : List Char) : Except Fault Nat :=
  let spaces := countWhile (· = ' ') s
  let comment :=
    if (s.drop spaces).head? = some '#' then countWhile (!isBreak ·) (s.drop spaces) else 0
  match s.drop (spaces + comment) with
  | [] => .ok (spaces + comment)
  | c :: _ => if isBreak c then .ok (spaces + comment + 1) else .error .malformed

structure Line where
  text : List Char
  ending : Option Char
  deriving DecidableEq, Repr

def Line.cons (c : Char) : List Line → List Line
  | [] => [⟨[c], none⟩]
  | l :: ls => ⟨c :: l.text, l.ending⟩ :: ls

def linesOf : List Char → List Line
  | [] => [⟨[], none⟩]
  | c :: rest => if isBreak c then ⟨[], some c⟩ :: linesOf rest else Line.cons c (linesOf rest)

def Line.size (l : Line) : Nat :=
  l.text.length + l.ending.elim 0 fun _ => 1

def Line.indent (l : Line) : Nat :=
  countWhile (· = ' ') l.text

/-- The largest indent of the lines up to the first that holds more than spaces. -/
def leadingIndent : List Line → Nat
  | [] => 0
  | l :: ls =>
    if l.indent = l.text.length &&
      l.ending.isSome then max l.indent (leadingIndent ls) else l.indent

/-- What was read of a block scalar: the text up to the end of the last line, that line's end, the
ends of empty lines behind it, and the number of characters. -/
structure Block where
  text : List Char
  ending : Option Char
  breaks : List Char
  taken : Nat
  deriving DecidableEq, Repr

/-- Whether a line starts with a blank, so that line ends beside it do not fold. -/
def startsBlank (s : List Char) : Bool :=
  s.head?.any fun c => c = ' ' || c = '\t'

/-- What stands between a line and the next one, which may be behind empty lines. -/
def between (folded : Bool) (text : List Char) (ending : Char)
    (breaks next : List Char) : List Char :=
  if folded && breakText ending = '\n' && !startsBlank text && !startsBlank next then
    if breaks.isEmpty then [' '] else breaks
  else breakText ending :: breaks

/-- Reads the lines of a block scalar that stand in by `indent`. `last` is the line before, `breaks`
the ends of empty lines since then. -/
def blockLines (folded : Bool) (indent : Nat) (last : Option Line) (breaks : List Char) :
    List Line → Block
  | [] => ⟨[], last.bind (·.ending), breaks, 0⟩
  | l :: ls =>
    let inner := min l.indent indent
    let text := l.text.drop inner
    match text, l.ending with
    | [], some c =>
      let block := blockLines folded indent last (breaks ++ [breakText c]) ls
      { block with taken := l.size + block.taken }
    | [], none => ⟨[], last.bind (·.ending), breaks, inner⟩
    | text, _ =>
      if inner = indent then
        let joint := match last with
          | some ⟨before, some c⟩ => between folded before c breaks text
          | _ => breaks
        let block := blockLines folded indent (some ⟨text, l.ending⟩) [] ls
        { block with text := joint ++ text ++ block.text, taken := l.size + block.taken }
      else ⟨[], last.bind (·.ending), breaks, inner⟩

/-- Reads a block scalar behind its indicator. Its lines stand in more than `indent` columns. -/
def block (folded : Bool) (indent : Nat) (s : List Char) : Except Fault (List Char × Nat) := do
  let ((chomping, increment), header) ← blockHeader s
  let ignored ← ignoredLine (s.drop header)
  let lines := linesOf (s.drop (header + ignored))
  let least := max 1 indent
  let indent := match increment with
    | some n => least + n - 1
    | none => max least (leadingIndent lines)
  let block := blockLines folded indent none [] lines
  let ending := (block.ending.map breakText).toList
  let tail := match chomping with
    | .strip => []
    | .clip => ending
    | .keep => ending ++ block.breaks
  return (block.text ++ tail, header + ignored + block.taken)

end ApiScaffold.Yaml.Scalar
