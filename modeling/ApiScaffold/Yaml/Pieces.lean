import ApiScaffold.Decimal.Binary64
import ApiScaffold.Text.LineBreak
import ApiScaffold.Text.Utf8
import ApiScaffold.Yaml.Character
import ApiScaffold.Yaml.Fault

/-! Texts of files. A file is read in pieces as they are needed, so a fault in its bytes tears the
text in front of the piece that holds it. -/
namespace ApiScaffold.Yaml.Pieces

/-- A file in reading: the bytes left, those of a character that is not complete, whether a carriage
return is held back for what follows it, the characters of the last chunk that no piece has taken,
and the size of that chunk in bytes and characters. -/
structure Intake where
  bytes : List UInt8
  begun : List UInt8 := []
  held : Bool := false
  ready : List Char := []
  chunkBytes : Nat := 0
  chunkCharacters : Nat := 0

def pieceLength : Nat := 4096

def chunkSize : Nat := 8192

namespace Intake

/-- The bytes to read for some characters, if each takes as many as those of the last chunk did. -/
def estimate (r : Intake) (wanted : Nat) : Nat :=
  if r.chunkCharacters = 0 || r.chunkBytes ≤ r.chunkCharacters then wanted
  else
    match (Binary64.ofQuotient false r.chunkBytes r.chunkCharacters).mul (.ofInt wanted) with
    | .finite _ m e => if 0 ≤ e then m <<< e.toNat else m >>> (-e).toNat
    | _ => wanted

/-- The characters of bytes, and the bytes of a last character that is not complete, unless no
more will follow. -/
def characters (final : Bool) (bytes : List UInt8) :
    Except Text.Utf8Fault (List Char × List UInt8) :=
  match Text.decode ⟨bytes.toArray⟩ with
  | .ok s => .ok (s.toList, [])
  | .error fault =>
    if final || fault.defect ≠ .unexpectedEnd then .error fault
    else do
      let s ← Text.decode ⟨(bytes.take fault.position).toArray⟩
      return (s.toList, bytes.drop fault.position)

/-- Reads a chunk for some characters. Tells whether the file has ended. -/
def readChunk (r : Intake) (wanted : Nat) : Except Text.Utf8Fault (Intake × Bool) := do
  let size := max chunkSize (r.estimate wanted)
  let chunk := r.bytes.take size
  let final := chunk.isEmpty
  let (s, begun) ← characters final (r.begun ++ chunk)
  let flushed := r.held && (final || !s.isEmpty)
  let s := if flushed then '\r' :: s else s
  let holds := !final && s.getLast? = some '\r'
  let s := Text.unifyLineEnds (if holds then s.dropLast else s)
  let r : Intake := {
    bytes := r.bytes.drop size, begun, held := holds || r.held && !flushed, ready := r.ready ++ s
    chunkBytes := chunk.length, chunkCharacters := s.length }
  return (r, final && s.isEmpty)

/-- Reads chunks until so many characters are ready or the file has ended. -/
def readFor : (bound : Nat) → (wanted : Nat) → Intake → Except Text.Utf8Fault Intake
  | 0, _, r => .ok r
  | bound + 1, wanted, r => do
    if wanted ≤ r.ready.length then return r
    let (r, ended) ← r.readChunk (wanted - r.ready.length)
    if ended then return r else readFor bound wanted r

/-- The next piece, empty at the end of the file. -/
def piece (r : Intake) : Except Text.Utf8Fault (List Char × Intake) := do
  let r ← r.readFor (r.bytes.length + 3) pieceLength
  return (r.ready.take pieceLength, { r with ready := r.ready.drop pieceLength })

end Intake

/-- A text, and the fault that tears it if there is one. -/
abbrev Torn := List Char × Option Fault

/-- Goes on with what is behind a piece, unless that holds characters that may not stand in a
text. -/
def continued (s : List Char) (rest : Unit → Torn) : Torn :=
  if s.all isAllowed then
    let (more, tear) := rest ()
    (s ++ more, tear)
  else ([], some .malformed)

def textFrom : (bound : Nat) → Intake → Torn
  | 0, _ => ([], none)
  | bound + 1, r =>
    match r.piece with
    | .error fault => ([], some (.notText fault))
    | .ok (s, r) => if s.isEmpty then ([], none) else continued s fun _ => textFrom bound r

/-- The text of a file. Its first two pieces are read at once. -/
def text (bytes : ByteArray) : Torn :=
  let read : Except Text.Utf8Fault (List Char × Intake) := do
    let (first, r) ← Intake.piece { bytes := bytes.data.toList }
    let (second, r) ← r.piece
    return (first ++ second, r)
  match read with
  | .error fault => ([], some (.notText fault))
  | .ok (s, r) => continued s fun _ => textFrom (bytes.size + 1) r

end ApiScaffold.Yaml.Pieces
