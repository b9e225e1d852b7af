import ApiScaffold.Text.LineBreak

/-! Paths as text: where they start and the names on the way. -/
namespace ApiScaffold

/-- Where a path starts. Two leading slashes, no more, are a start of their own. -/
inductive Path.Base where
  | here
  | root
  | doubleRoot
  deriving DecidableEq, Repr

/-- A path without empty and `.` names; `..` is a name like any other. -/
structure Path where
  base : Path.Base
  names : List String
  deriving DecidableEq, Repr

namespace Path

def Base.text : Base → String
  | .here => ""
  | .root => "/"
  | .doubleRoot => "//"

def Base.ofChars : List Char → Base
  | '/' :: '/' :: '/' :: _ => .root
  | '/' :: '/' :: _ => .doubleRoot
  | '/' :: _ => .root
  | _ => .here

/-- The names between slashes that say where to go. -/
def namesOf (s : String) : List String :=
  ((Text.segments '/' s.toList).map String.ofList).filter fun name => name ≠ "" ∧ name ≠ "."

def ofString (s : String) : Path :=
  ⟨.ofChars s.toList, namesOf s⟩

/-- The spelling of a path; the path to where one stands is a dot. -/
def text (p : Path) : String :=
  if p.base = .here ∧ p.names = [] then "." else p.base.text ++ "/".intercalate p.names

instance : ToString Path := ⟨text⟩

def isAbsolute (p : Path) : Bool :=
  p.base ≠ .here

def join (p q : Path) : Path :=
  if q.isAbsolute then q else ⟨p.base, p.names ++ q.names⟩

def child (p : Path) (s : String) : Path :=
  p.join (ofString s)

instance : HDiv Path String Path := ⟨child⟩

def parent (p : Path) : Path :=
  ⟨p.base, p.names.dropLast⟩

/-- The last name, empty if there is none. -/
def name (p : Path) : String :=
  p.names.getLast?.getD ""

def hasNul (p : Path) : Bool :=
  p.names.any fun name => '\x00' ∈ name.toList

/-- Follows names from a place given by the names above it, taking `..` one name back. -/
def follow (place names : List String) : List String :=
  names.foldl (fun place name => if name = ".." then place.dropLast else place ++ [name]) place

/-- The path from the root without `..`, for one who stands at `place`. -/
def absolute (place : List String) (p : Path) : Path :=
  ⟨.root, follow (if p.isAbsolute then [] else place) p.names⟩

end Path
end ApiScaffold
