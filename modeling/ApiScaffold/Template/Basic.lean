import ApiScaffold.Workspace.Directories

/-! Templates: named sets of files, to be written below any directory. -/
namespace ApiScaffold

/-- A template keeps its files in the order of their paths. No path leads out of the directory. -/
structure Template where
  name : String
  files : List (String × String)
  ordered : files.Pairwise fun f g => compare f.1 g.1 = .lt
  safe : ∀ f ∈ files, (Path.ofString f.1).isAbsolute = false ∧ ".." ∉ Path.namesOf f.1

namespace Template

/-- A path that starts at the root or goes back up. -/
def isUnsafe (path : String) : Bool :=
  (Path.ofString path).isAbsolute || (Path.namesOf path).contains ".."

/-- The template with the given files, of which the last counts where several have one path. The
first unsafe path is refused. -/
def ofFiles (name : String) (files : List (String × String)) : Except Failure Template :=
  match h : files.find? fun f => isUnsafe f.1 with
  | some (path, _) => .error (.unsafePath name path)
  | none => .ok {
      name
      files := (Std.ExtTreeMap.ofList files compare).toList
      ordered := Std.ExtTreeMap.ordered_keys_toList
      safe := fun f hf => by
        have hm : f.1 ∈ Std.ExtTreeMap.ofList files compare :=
          Std.ExtTreeMap.mem_iff_isSome_getElem?.2
            (by simp [Std.ExtTreeMap.mem_toList_iff_getElem?_eq_some.1 hf])
        rw [Std.ExtTreeMap.mem_ofList, List.contains_iff_mem, List.mem_map] at hm
        obtain ⟨g, hg, he⟩ := hm
        have := List.find?_eq_none.1 h g hg
        simpa [isUnsafe, he] using this }

def paths (t : Template) : List String :=
  t.files.map (·.1)

def target (root : Path) (path : String) : Path :=
  ⟨root.base, root.names ++ Path.namesOf path⟩

def writeFile (root : Path) (file : String × String) : Work Path := do
  let p := target root file.1
  Work.ensureDirectory p.parent
  Work.writeText p file.2
  return p

/-- Writes all files below a directory, over those that are there. -/
def extract (t : Template) (root : Path) : Work (List Path) := do
  let written ← t.files.mapM (writeFile root)
  Work.note .debug .templates s!"Extracted {written.length} file(s) from '{t.name}' into {root}"
  return written

theorem ofFiles_eq_error_iff {name : String} {files : List (String × String)} :
    (∃ f, ofFiles name files = .error f) ↔ ∃ f ∈ files, isUnsafe f.1 = true := by
  unfold ofFiles
  split
  · rename_i h
    exact ⟨fun _ => ⟨_, List.mem_of_find?_eq_some h, by simpa using List.find?_some h⟩,
      fun _ => ⟨_, rfl⟩⟩
  · rename_i h
    simpa using h

end Template
end ApiScaffold
