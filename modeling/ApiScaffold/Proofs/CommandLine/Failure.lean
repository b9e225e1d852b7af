import ApiScaffold.CommandLine.Run
import ApiScaffold.Proofs.Placeholder
import ApiScaffold.Proofs.Registration.ModuleList
import ApiScaffold.Proofs.Registration.RouteFile
import ApiScaffold.Proofs.Settings.Faults
import ApiScaffold.Proofs.Template.Extract
import ApiScaffold.Proofs.Workspace.Programs

/-! How tasks fail: each in ways that a run tells about, if the loader of settings does. -/
namespace ApiScaffold

namespace Work
variable {w w' : Workspace} {p : Path}

abbrev Tells {α : Type} (x : Work α) : Prop :=
  FailsOnly Failure.IsTold x

theorem FailsOnly.tells {α : Type} {x : Work α}
    (h : FailsOnly (Misses fun _ => True) x) : Tells x :=
  h.mono fun _ => Failure.isTold_of_misses

theorem tells_fileExists (p : Path) : Tells (fileExists p) :=
  (FailsOnly.tells (failsOnly_status trivial)).bind fun _ _ _ _ => failsOnly_pure _

theorem tells_isDirectory (p : Path) : Tells (isDirectory p) :=
  FailsOnly.tells (failsOnly_isDirectory trivial)

theorem tells_ensureDirectory (p : Path) : Tells (ensureDirectory p) :=
  FailsOnly.tells (failsOnly_ensureDirectory_of_here trivial)

theorem tells_writeText (p : Path) (s : String) : Tells (writeText p s) :=
  FailsOnly.tells (failsOnly_writeText trivial s)

theorem tells_absolute (p : Path) : Tells (absolute p) := by
  unfold absolute
  split
  · exact failsOnly_throw rfl
  · exact FailsOnly.bind (fun _ _ _ h => by cases h) fun _ _ _ _ => failsOnly_pure _

theorem tells_readText (p : Path) : Tells (readText p) := by
  refine (FailsOnly.tells (failsOnly_look trivial _)).bind fun _ content _ _ => ?_
  split
  · exact failsOnly_pure _
  · exact failsOnly_throw rfl

theorem tells_subdirectories (p : Path) : Tells (subdirectories p) := by
  refine (tells_isDirectory p).bind fun _ b _ _ => ?_
  split
  · exact failsOnly_pure _
  · refine FailsOnly.bind (fun _ _ _ h => by cases h) fun _ v _ _ => ?_
    split
    · simp only
      split
      · exact failsOnly_throw rfl
      · exact failsOnly_pure _
    · exact failsOnly_throw rfl

theorem tells_start (i : Program.Invocation) : Tells (start i) := by
  intro w e w' h
  cases hn : i.hasNul with
  | true =>
    rw [start_of_nul hn] at h
    cases h
    rfl
  | false =>
    rw [start_of_words hn] at h
    cases h

theorem tells_execute (i : Program.Invocation) : Tells (execute i) := by
  refine (failsOnly_note _ _ _).bind fun _ _ _ _ => (tells_start i).bind fun _ outcome _ _ => ?_
  cases outcome with
  | notStarted e =>
    have hreason : FailsOnly (Misses fun _ => True) (reasonNotStarted i.directory e) := by
      unfold reasonNotStarted
      split
      · refine (failsOnly_isDirectory trivial).bind fun _ b _ _ => ?_
        split <;> exact failsOnly_pure _
      · exact failsOnly_pure _
    exact (FailsOnly.tells (failsOnly_during hreason)).bind fun _ _ _ _ => failsOnly_throw rfl
  | exited status output errors =>
    split
    · nomatch ‹Program.Outcome.exited _ _ _ = .notStarted _›
    · exact failsOnly_pure _
    · exact failsOnly_throw rfl

theorem tells_discard {α : Type} {x : Work α} (h : Tells x) : Tells (discard x) :=
  fun w e w' he => h w e w' (discard_eq_error he)

theorem tells_run (command : List String) (directory : String) (captured : Bool) :
    Tells (run command directory captured) :=
  tells_discard (tells_execute _)

theorem tells_orOnProgramFailure {α : Type} {x : Work α} {otherwise : Program.Failure → Work α}
    (hx : Tells x) (hf : ∀ failure, Tells (otherwise failure)) :
    Tells (orOnProgramFailure x otherwise) :=
  FailsOnly.orOnProgramFailure (hx.mono fun _ => .inr) hf

end Work
open Work

theorem Template.tells_extract (t : Template) (root : Path) : Tells (t.extract root) :=
  FailsOnly.tells (failsOnly_extract_of (fun _ _ => failsOnly_ensureDirectory_of_here trivial)
    fun _ _ => trivial)

theorem Placeholder.tells_replaceBelow {token : String} (htoken : token ≠ "") (root : Path)
    (value : String) : Tells (replaceBelow root token value) :=
  FailsOnly.tells ((failsOnly_replaceBelow htoken root).mono fun _ h => h.mono fun _ _ => trivial)

theorem ModuleList.tells_registerIn (file : Path) (name : String) : Tells (registerIn file name) :=
  FailsOnly.tells ((failsOnly_registerIn file name).mono fun _ h => h.mono fun _ _ => trivial)

/-- A registration is refused for want of a marker only: its entries are always filled in. -/
theorem Route.tells_registerIn (file : Path) (name imports routes : String) :
    Tells (registerIn file name imports routes) := by
  refine (tells_readText file).bind fun _ s _ _ => ?_
  cases h : register file.name imports routes name s.toList with
  | ok t => exact (tells_writeText _ _).bind fun _ _ _ _ =>
    (failsOnly_note _ _ _).bind fun _ _ _ _ => failsOnly_pure _
  | error f =>
    refine failsOnly_throw ?_
    by_cases hs : imports.toList <:+: s.toList ∧ routes.toList <:+: s.toList
    · rw [register_of_occurs _ _ hs.1 hs.2, insert_import] at h
      split at h
      · cases h
        rfl
      · change (callAnchor routes).insert name _ = _ at h
        rw [insert_call] at h
        split at h
        · cases h
          rfl
        · cases h
    · rw [register_of_missing _ _ hs] at h
      cases h
      rfl

namespace Toolchain

theorem tells_versionStep (project : Path) (command : List String) :
    Tells (versionStep project command) :=
  tells_orOnProgramFailure ((tells_run _ _ _).bind fun _ _ _ _ => failsOnly_pure _) fun _ =>
    (failsOnly_note _ _ _).bind fun _ _ _ _ => failsOnly_pure _

end Toolchain

theorem Project.tells_checkName (name : String) : Tells (checkName name) := by
  unfold checkName
  split
  · exact failsOnly_throw rfl
  · simp only
    split
    · exact failsOnly_throw rfl
    · exact failsOnly_pure _

theorem Domain.tells_checkName (name : String) : Tells (checkName name) := by
  unfold checkName
  split
  · exact failsOnly_throw rfl
  · exact failsOnly_pure _

namespace Work
variable {α β : Type} {w : Workspace}

/-- Work that on some workspace fails only in ways that a run tells about. -/
def TellsOn (w : Workspace) (x : Work α) : Prop :=
  ∀ e w', x w = .error e w' → e.IsTold

theorem Tells.on {x : Work α} (h : Tells x) : TellsOn w x :=
  h w

theorem TellsOn.bind {x : Work α} {f : α → Work β} (hx : TellsOn w x)
    (hf : ∀ a w', x w = .ok a w' → TellsOn w' (f a)) : TellsOn w (x >>= f) := by
  intro e w' h
  rcases bind_eq_error_iff.1 h with h | ⟨a, w₁, ha, h⟩
  · exact hx e w' h
  · exact hf a w₁ ha e w' h

end Work

/-- From the root of a project on, its settings are loaded before anything else is done. -/
theorem Settings.tellsOn_load {α : Type} {w : Workspace} {project : Path}
    {f : Path → Settings → Work α} (hw : w.LoadsForeseen (project.absolute w.place))
    (hf : ∀ p settings, Tells (f p settings)) : TellsOn w (do
      let p ← Work.absolute project
      let settings ← orLoad none p
      f p settings) := by
  refine (tells_absolute project).on.bind fun p w₁ hp => ?_
  obtain ⟨rfl, -, rfl⟩ := absolute_eq_ok hp
  exact TellsOn.bind (fun e w' h => isTold_of_load hw h) fun settings w₂ _ => (hf _ settings).on

namespace Toolchain
variable {w : Workspace} {project : Path}

theorem tellsOn_openProject {α : Type} {f : Path × Settings → Work α}
    (hw : w.LoadsForeseen (project.absolute w.place)) (hf : ∀ opened, Tells (f opened)) :
    TellsOn w (openProject project none >>= f) := by
  refine TellsOn.bind ?_ fun opened _ _ => (hf opened).on
  exact Settings.tellsOn_load hw fun _ _ => failsOnly_pure _

theorem tells_initGit (project : Path) (settings : Settings) :
    Tells (initGit project (some settings)) := by
  have hopen : Tells (openProject project (some settings)) :=
    (tells_absolute project).bind fun _ _ _ _ =>
      FailsOnly.bind (failsOnly_pure _) fun _ _ _ _ => failsOnly_pure _
  refine hopen.bind fun _ opened _ _ => ?_
  refine (tells_versionStep _ _).bind fun _ _ _ _ => (tells_versionStep _ _).bind fun _ _ _ _ => ?_
  exact (tells_versionStep _ _).bind fun _ _ _ _ => failsOnly_pure _

theorem tellsOn_runDevelopment (hw : w.LoadsForeseen (project.absolute w.place)) :
    TellsOn w (runDevelopment project none) :=
  tellsOn_openProject hw fun _ => tells_run _ _ _

theorem tellsOn_build (hw : w.LoadsForeseen (project.absolute w.place)) :
    TellsOn w (build project none) :=
  tellsOn_openProject hw fun _ => tells_run _ _ _

theorem tellsOn_runProduction (hw : w.LoadsForeseen (project.absolute w.place)) :
    TellsOn w (runProduction project none) := by
  refine tellsOn_openProject hw fun opened => ?_
  refine (tells_run _ _ _).bind fun _ _ _ _ => (tells_fileExists _).bind fun _ found _ _ => ?_
  split
  · exact (failsOnly_note _ _ _).bind fun _ _ _ _ => failsOnly_pure _
  · exact (tells_run _ _ _).bind fun _ _ _ _ => failsOnly_pure _

theorem tellsOn_runMigrations (hw : w.LoadsForeseen (project.absolute w.place)) :
    TellsOn w (runMigrations project none) := by
  refine tellsOn_openProject hw fun opened => ?_
  refine tells_orOnProgramFailure ((tells_run _ _ _).bind fun _ _ _ _ => failsOnly_pure _)
    fun _ => ?_
  refine (failsOnly_note _ _ _).bind fun _ _ _ _ => ?_
  refine tells_orOnProgramFailure ((tells_run _ _ _).bind fun _ _ _ _ => failsOnly_pure _)
    fun _ => ?_
  exact (failsOnly_note _ _ _).bind fun _ _ _ _ => failsOnly_pure _

theorem tellsOn_exportDocs (hw : w.LoadsForeseen (project.absolute w.place)) :
    TellsOn w (exportDocs project none) := by
  refine tellsOn_openProject hw fun opened => ?_
  refine (tells_ensureDirectory _).bind fun _ _ _ _ => FailsOnly.bind ?_ fun _ docs _ _ => ?_
  · refine tells_orOnProgramFailure ?_ fun _ =>
      (failsOnly_note _ _ _).bind fun _ _ _ _ => failsOnly_pure _
    exact (tells_execute _).bind fun _ _ _ _ => failsOnly_pure _
  · cases docs with
    | none => exact failsOnly_pure _
    | some text => exact (tells_writeText _ _).bind fun _ _ _ _ => failsOnly_pure _

end Toolchain

theorem Migration.tells_create (migrations : Path) (name : String) (time : Option LocalTime) :
    Tells (create migrations name time) := by
  unfold create
  split
  · exact failsOnly_throw rfl
  · refine FailsOnly.bind (fun _ _ _ h => by cases h) fun _ _ _ _ =>
      (tells_ensureDirectory _).bind fun _ _ _ _ => ?_
    refine (tells_writeText _ _).bind fun _ _ _ _ => (tells_writeText _ _).bind fun _ _ _ _ => ?_
    exact (failsOnly_note _ _ _).bind fun _ _ _ _ => failsOnly_pure _

theorem Migration.tellsOn_generate {w : Workspace}
    {project : Path} (hw : w.LoadsForeseen (project.absolute w.place))
    (name : Option String) (time : Option LocalTime) :
    TellsOn w (generate project name none time) := by
  refine Settings.tellsOn_load hw fun p settings => (tells_ensureDirectory _).bind fun _ _ _ _ => ?_
  cases name with
  | some name => exact (tells_create _ _ _).bind fun _ _ _ _ => failsOnly_pure _
  | none =>
    refine (tells_subdirectories _).bind fun _ _ _ _ => ?_
    exact FailsOnly.mapM fun _ _ => tells_create _ _ _

theorem Domain.tellsOn_create {w : Workspace} {project : Path}
    (hw : w.LoadsForeseen (project.absolute w.place)) (name : String) (template : Template) :
    TellsOn w (create name project template none) := by
  refine (tells_checkName name).on.bind fun _ w₁ hcheck => ?_
  have hw₁ : w₁ = w := by
    unfold checkName at hcheck
    split at hcheck
    · cases hcheck
    · exact (EStateM.Result.ok.inj hcheck).2.symm
  obtain rfl := hw₁
  refine Settings.tellsOn_load hw fun p settings => (tells_ensureDirectory _).bind fun _ _ _ _ => ?_
  refine (tells_discard (template.tells_extract _)).bind fun _ _ _ _ => ?_
  refine (tells_discard (Placeholder.tells_replaceBelow (by decide) _ _)).bind fun _ _ _ _ => ?_
  refine (tells_discard (Route.tells_registerIn _ _ _ _)).bind fun _ _ _ _ => ?_
  refine (ModuleList.tells_registerIn _ _).bind fun _ _ _ _ => ?_
  exact (failsOnly_note _ _ _).bind fun _ _ _ _ => failsOnly_pure _

theorem Project.tells_create (name : String) (parent : Path) (template : Template) (git : Bool) :
    Tells (create name parent template git) := by
  refine (tells_checkName name).bind fun _ _ _ _ => (tells_fileExists _).bind fun _ found _ _ => ?_
  cases found with
  | true => exact FailsOnly.bind (failsOnly_throw rfl) fun _ _ _ h => by cases h
  | false =>
    have hmake : FailsOnly (Misses fun _ => True) (makeNewDirectory (parent / name)) :=
      (failsOnly_makeAll _ _).mono fun _ h => h.mono fun _ _ => trivial
    refine (FailsOnly.tells hmake).bind fun _ _ _ _ =>
      (template.tells_extract _).bind fun _ files _ _ => ?_
    refine (tells_discard (Placeholder.tells_replaceBelow (by decide) _ _)).bind fun _ _ _ _ => ?_
    refine (tells_discard (Placeholder.tells_replaceBelow (by decide) _ _)).bind fun _ _ _ _ => ?_
    cases git with
    | true =>
      refine (Toolchain.tells_initGit _ _).bind fun _ _ _ _ => ?_
      exact (failsOnly_note _ _ _).bind fun _ _ _ _ => failsOnly_pure _
    | false =>
      refine FailsOnly.bind (failsOnly_pure false) fun _ _ _ _ => ?_
      exact (failsOnly_note _ _ _).bind fun _ _ _ _ => failsOnly_pure _

end ApiScaffold
