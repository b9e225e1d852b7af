import ApiScaffold.FileTree.Access

/-! What differs between two file trees. -/
namespace ApiScaffold

/-- An entry that was taken away, or one that is new or holds something else. -/
inductive FileTree.Change where
  | removed (place : Location) (old : Node)
  | put (place : Location) (new : Node)
  deriving DecidableEq

namespace FileTree

def Node.sameKind : Node → Node → Bool
  | .directory, .directory => true
  | .file _, .file _ => true
  | _, _ => false

def changes (old new : FileTree) : List Change :=
  (old.entries.toList.filterMap fun (l, n) =>
    if (new.get? l).any (Node.sameKind n) then none else some (.removed l n)) ++
  (new.entries.toList.filterMap fun (l, n) => if old.get? l = some n then none else some (.put l n))

end FileTree
end ApiScaffold
