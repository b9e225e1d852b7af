import ApiScaffold.Failure
import ApiScaffold.Text.Search

/-! Anchors: markers in a text below which entries are inserted, each on a line of its own. -/
namespace ApiScaffold

/-- A marker and the template of the entries below it. -/
structure Anchor where
  marker : String
  entry : String
  deriving DecidableEq, Repr

namespace Anchor

/-- The start that all entries share. -/
def lead (a : Anchor) : List Char :=
  EntryTemplate.beforeName a.entry.toList

def render (a : Anchor) (name : String) : Except EntryTemplate.Defect (List Char) :=
  EntryTemplate.render a.entry.toList name.toList

/-- Splits off the lines in front that start with `lead`, each with the line end before it. `inside`
tells whether the text goes on in such a line. -/
def splitBlock (lead : List Char) (inside : Bool) : List Char → List Char × List Char
  | [] => ([], [])
  | c :: rest =>
    if inside && c ≠ '\n' || ('\n' :: lead).isPrefixOf (c :: rest) then
      let (block, after) := splitBlock lead true rest
      (c :: block, after)
    else ([], c :: rest)

/-- Entries made before, which stand directly below the marker, and the text after them. Without a
shared start no line is known to be an entry. -/
def entriesBelow (a : Anchor) (s : List Char) : List Char × List Char :=
  if a.lead.isEmpty then ([], s) else splitBlock a.lead false s

/-- Inserts the entry for a name below the first marker, after the entries made before. -/
def insert (a : Anchor) (name : String) (s : List Char) : Except Failure (List Char) :=
  match Text.cut a.marker.toList s with
  | none => .error (.markerMissing a.marker)
  | some (before, after) =>
    match a.render name with
    | .error defect => .error (.entry defect)
    | .ok entry =>
      .ok (before ++ a.marker.toList ++ (a.entriesBelow after).1 ++ '\n' :: entry ++
        (a.entriesBelow after).2)

theorem splitBlock_append (lead : List Char) (inside : Bool) (s : List Char) :
    (splitBlock lead inside s).1 ++ (splitBlock lead inside s).2 = s := by
  induction s generalizing inside with
  | nil => rfl
  | cons c rest ih =>
    rw [splitBlock]
    split
    · simp [ih]
    · rfl

end Anchor
end ApiScaffold
