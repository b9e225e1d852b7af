import ApiScaffold.FileTree.Basic
import ApiScaffold.Path

/-! Reaching places along paths, and reading, writing and making entries there. -/
namespace ApiScaffold

inductive Refusal where
  | missing
  | exists
  | notDirectory
  | isDirectory
  | nameTooLong
  deriving DecidableEq, Repr

namespace Refusal

def number : Refusal → Nat
  | .missing => 2
  | .exists => 17
  | .notDirectory => 20
  | .isDirectory => 21
  | .nameTooLong => 36

def reason : Refusal → String
  | .missing => "No such file or directory"
  | .exists => "File exists"
  | .notDirectory => "Not a directory"
  | .isDirectory => "Is a directory"
  | .nameTooLong => "File name too long"

end Refusal

namespace FileTree

def nameLimit : Nat := 255

/-- Follows names from a place. Only a directory leads on; the last place may be empty. -/
def walk (t : FileTree) (place : Location) : List String → Except Refusal Location
  | [] => .ok place
  | name :: names =>
    match t.get? place with
    | none => .error .missing
    | some (.file _) => .error .notDirectory
    | some .directory =>
      if nameLimit < name.utf8ByteSize then .error .nameTooLong
      else t.walk (if name = ".." then place.dropLast else place ++ [name]) names

/-- The bytes a path may have are fewer than this. -/
def pathLimit : Nat := 4096

/-- The place of a path for one who stands at `place`. -/
def locate (t : FileTree) (place : Location) (p : Path) : Except Refusal Location :=
  if pathLimit ≤ p.text.utf8ByteSize then .error .nameTooLong
  else t.walk (if p.isAbsolute then [] else place) p.names

/-- What is at a path, `none` if the way does not lead there. Only a name or path that is too
long is refused. -/
def status (t : FileTree) (place : Location) (p : Path) : Except Refusal (Option Node) :=
  match t.locate place p with
  | .ok l => .ok (t.get? l)
  | .error .nameTooLong => .error .nameTooLong
  | .error _ => .ok none

def read (t : FileTree) (place : Location) (p : Path) : Except Refusal ByteArray := do
  match t.get? (← t.locate place p) with
  | some (.file content) => pure content
  | some .directory => throw .isDirectory
  | none => throw .missing

def writeAt (t : FileTree) (l : Location) (content : ByteArray) : Except Refusal FileTree :=
  if hl : t.get? l = some .directory then .error .isDirectory
  else if hp : t.get? l.dropLast = some .directory then .ok (t.insert l (.file content) hl hp)
  else .error .missing

def makeDirectoryAt (t : FileTree) (l : Location) : Except Refusal FileTree :=
  if hl : t.get? l = none then
    if hp : t.get? l.dropLast = some .directory then .ok (t.insert l .directory (by simp [hl]) hp)
    else .error .missing
  else .error .exists

def write (t : FileTree) (place : Location) (p : Path) (content : ByteArray) :
    Except Refusal FileTree := do
  t.writeAt (← t.locate place p) content

def makeDirectory (t : FileTree) (place : Location) (p : Path) : Except Refusal FileTree := do
  t.makeDirectoryAt (← t.locate place p)

def names (t : FileTree) (l : Location) : List String :=
  t.entries.toList.filterMap fun (k, _) => if k.dropLast = l then k.getLast? else none

/-- The ways from a place to the entries below it, in order. -/
def below (t : FileTree) (l : Location) : List (List String × Node) :=
  t.entries.toList.filterMap fun (k, n) => if l.isPrefixOf k ∧
    k ≠ l then some (k.drop l.length, n) else none

theorem get?_of_writeAt {s t : FileTree} {l k : Location} {content : ByteArray}
    (h : s.writeAt l content = .ok t) :
    t.get? k = if l = k then some (.file content) else s.get? k := by
  unfold writeAt at h
  split at h
  · cases h
  · split at h
    · cases h
      exact get?_insert k
    · cases h

theorem get?_of_makeDirectoryAt {s t : FileTree} {l k : Location}
    (h : s.makeDirectoryAt l = .ok t) : t.get? k = if l = k then some .directory else s.get? k := by
  unfold makeDirectoryAt at h
  split at h
  · split at h
    · cases h
      exact get?_insert k
    · cases h
  · cases h

end FileTree
end ApiScaffold
