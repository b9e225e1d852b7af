import ApiScaffold.Workspace.Basic

/-! Making directories, with those above them, and listing what is in them. -/
namespace ApiScaffold.Work

/-- Works while an error is dealt with, which later errors name. -/
def during {α : Type} (e : SystemError) (work : Work α) : Work α :=
  tryCatch work fun
    | .system later earlier => throw (.system later (earlier ++ [e]))
    | f => throw f

def tryMakeDirectory (p : Path) : Work (Option Refusal) := do
  if p.hasNul then throw .nulInPath
  let w ← get
  match w.tree.makeDirectory w.place p with
  | .ok t =>
    setTree t
    return none
  | .error r => return some r

/-- Lets a directory count as made where it may be there already, and is. -/
def acceptExisting (existing : Bool) (r : Refusal) (p : Path) : Work Unit := do
  if existing then
    if ← during (r.error p) (isDirectory p) then return
  refuse r p

def makeLast (existing : Bool) (p : Path) : Work Unit := do
  match ← tryMakeDirectory p with
  | none => return
  | some .missing => refuse .missing p
  | some r => acceptExisting existing r p

/-- Makes a directory, given by its names from the last to the first, after those above it that are
missing, however many. The stack of a run, with room for as many levels as a listing has, does not
bound them here. -/
def makeAll (base : Path.Base) (existing : Bool) : (names : List String) → Work Unit
  | [] => makeLast existing ⟨base, []⟩
  | name :: above => do
    let p : Path := ⟨base, (name :: above).reverse⟩
    match ← tryMakeDirectory p with
    | none => return
    | some .missing =>
      during (Refusal.missing.error p) do
        makeAll base true above
        makeLast existing p
    | some r => acceptExisting existing r p

/-- Makes a directory that must not be there yet. -/
def makeNewDirectory (p : Path) : Work Unit :=
  makeAll p.base false p.names.reverse

/-- Makes a directory that may be there already. -/
def ensureDirectory (p : Path) : Work Unit :=
  makeAll p.base true p.names.reverse

/-- The names of the directories in a directory, in order; none if there is no such directory. What
an entry is cannot be told where its path is too long. -/
def subdirectories (p : Path) : Work (List String) := do
  if !(← isDirectory p) then return []
  let w ← get
  match w.tree.locate w.place p with
  | .ok l =>
    let entry (name : String) : Path := ⟨p.base, p.names ++ [name]⟩
    match (w.tree.names l).find? fun name =>
      FileTree.pathLimit ≤ (entry name).text.utf8ByteSize with
    | some name => refuse .nameTooLong (entry name)
    | none => return (w.tree.names l).filter fun name => w.tree.get? (l ++ [name]) = some .directory
  | .error r => refuse r p

/-- The levels of directories below one another for which there is room on the stack of a run
of the program. -/
def usualLevels : Nat := 988

/-- What keeps a listing from going into an entry below a directory: too many levels above it, or a
path that is too long. -/
def obstacle (p : Path) (levels : Nat) : List String × Node → Option Failure
  | (_, .file _) => none
  | (names, .directory) =>
    let entry : Path := ⟨p.base, p.names ++ names⟩
    if levels < names.length then some .tooDeep
    else if FileTree.pathLimit ≤ entry.text.utf8ByteSize then
      some (.system (Refusal.nameTooLong.error entry) [])
    else none

/-- The files at any depth below a directory, in order; none if there is no such directory. The
listing goes into every directory below, a level of its own for each. -/
def filesBelow (p : Path) (levels : Nat := usualLevels) : Work (List Path) := do
  if !(← isDirectory p) then return []
  let w ← get
  match w.tree.locate w.place p with
  | .ok l =>
    let found := w.tree.below l
    match found.findSome? (obstacle p levels) with
    | some failure => throw failure
    | none => return found.filterMap fun
      | (names, .file _) => some ⟨p.base, p.names ++ names⟩
      | (_, .directory) => none
  | .error r => refuse r p

def removeAll (p : Path) : Work Unit := do
  setTree (← look p fun t place p => do
    let l ← t.locate place p
    if t.get? l = none then throw .missing
    pure (t.erase l))

end ApiScaffold.Work
