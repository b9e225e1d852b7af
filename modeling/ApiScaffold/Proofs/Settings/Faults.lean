import ApiScaffold.Proofs.Settings.Keys
import ApiScaffold.Proofs.Settings.Load
import ApiScaffold.Proofs.Yaml.Telling

/-! What can be wrong with a settings file. Faults that the loader finds apart, a run tells about
each of them. -/
namespace ApiScaffold
namespace Yaml

def Fault.Foreseen (fault : Fault) : Prop :=
  fault.isForeseen = true

/-- Whatever is in the way of telling a value, a run tells about it. -/
theorem Document.errsOnly_text (d : Document) (v : Value) : ErrsOnly Fault.Foreseen (d.text v) := by
  have hlong : Fault.Foreseen (.digits none) := rfl
  cases v with
  | atom a => exact a.errsOnly_toText hlong
  | collection n =>
    exact errsOnly_quotedWithin (fun _ => True) hlong (fun _ _ _ => rfl)
      (fun _ _ _ _ _ _ => trivial) (.inl rfl) trivial

end Yaml

namespace Failure

/-- A failure that a run tells about, and that is none of an entry template. -/
def IsTold : Failure → Prop
  | .entry _ => False
  | f => f.isForeseen = true

theorem IsTold.isForeseen {f : Failure} (h : f.IsTold) : f.isForeseen = true := by
  cases f with
  | entry defect => exact h.elim
  | _ => exact h

theorem isTold_of_misses {paths : Path → Prop} {f : Failure}
    (h : Work.Misses paths f) : f.IsTold := by
  cases f with
  | system | nulInPath | tooDeep => rfl
  | _ => exact h.elim

end Failure

namespace Settings
open Yaml (Document Value Fault)

theorem errsOnly_ofEntries (d : Document) (entries : Entries) :
    ErrsOnly Failure.IsTold (ofEntries d entries) := by
  rw [ofEntries_eq]
  refine errsOnly_gather fun s e he => ?_
  rcases Setting.read_eq_error he with ⟨key, -, -, rfl⟩ | ⟨v, f, -, -, ht, rfl⟩
  · rfl
  · exact d.errsOnly_text v f ht

theorem errsOnly_ofDocument (file : Path) (d : Document) :
    ErrsOnly Failure.IsTold (ofDocument file d) := by
  unfold ofDocument
  split
  · exact errsOnly_ofEntries d []
  · split
    · exact errsOnly_ofEntries d _
    · exact errsOnly_error rfl

/-- What the loader finds wrong with the bytes of a file, if anything, is a fault that a
run tells about. -/
def LoadsForeseen (bytes : ByteArray) : Prop :=
  ErrsOnly Fault.Foreseen (Document.ofText (Yaml.Pieces.text bytes).1 (Yaml.Pieces.text bytes).2)

theorem errsOnly_ofBytes {bytes : ByteArray} (h : LoadsForeseen bytes) (file : Path) :
    ErrsOnly Failure.IsTold (ofBytes file bytes) := by
  unfold ofBytes
  simp only
  split
  · exact errsOnly_error rfl
  · rename_i fault hfault
    exact errsOnly_error (h _ hfault)
  · exact errsOnly_ofDocument file _

end Settings

/-- The loader finds nothing wrong with the settings file of a project that a run would not tell
about. -/
def Workspace.LoadsForeseen (w : Workspace) (project : Path) : Prop :=
  ∀ bytes, Work.readBytes (project / Failure.settingsFile) w = .ok bytes w →
    Settings.LoadsForeseen bytes

namespace Settings
variable {w w' : Workspace} {project : Path} {e : Failure}

theorem isTold_of_load (hw : w.LoadsForeseen project)
    (h : load project w = .error e w') : e.IsTold := by
  obtain ⟨-, hmisses | ⟨bytes, hbytes, hof⟩⟩ := ofFile_eq_error (ofFile_of_load_error h)
  · exact Failure.isTold_of_misses hmisses
  · exact errsOnly_ofBytes (hw bytes hbytes) _ _ hof

end Settings
end ApiScaffold
