import ApiScaffold.Proofs.CommandLine.Failure
import ApiScaffold.Proofs.CommandLine.Reading
import ApiScaffold.Proofs.Settings.Shape

/-! What the command line makes of a task: the work behind it, no more and no less, and a report of
how that ended. -/
namespace ApiScaffold

theorem Work.discard_bind {α β : Type} {x : Work α} {f : α → Work β} (hf : ∀ a, ∃ b, f a = pure b) :
    discard (x >>= f) = discard x := by
  funext w
  change ((x >>= f) >>= fun _ => pure ()) w = (x >>= fun _ => pure ()) w
  cases h : x w with
  | error e w₁ => rw [bind_of_error (bind_of_error h f), bind_of_error h]
  | ok a w₁ =>
    obtain ⟨b, hb⟩ := hf a
    have hrun : (x >>= f) w = .ok b w₁ := by
      rw [bind_of_ok h, hb]
      rfl
    rw [bind_of_ok hrun, bind_of_ok h]

theorem Journal.Entry.not_error_prefix (e : Journal.Entry) :
    ¬ "ERROR".toList <+: e.line.toList := by
  intro h
  have hline : e.line.toList = e.level.text.toList ++
      (" " ++ e.topic.text ++ ": " ++ e.text).toList := by
    simp [Entry.line, toString]
  rw [hline] at h
  cases hl : e.level <;> simp [hl, Level.text] at h

namespace CommandLine
variable {w : Workspace}

/-- The work behind a task, with the usual template and the settings of the project. -/
def Task.call (task : Task) (directory : Path) : Work Unit :=
  match task with
  | .createProject name => discard (Project.create name directory Template.project true)
  | .createDomain name => discard (Domain.create name directory Template.domain none)
  | .createDocs => discard (Toolchain.exportDocs directory none)
  | .generateMigrations name => discard (Migration.generate directory name none none)
  | .runMigrations => discard (Toolchain.runMigrations directory none)
  | .runDevelopment => discard (Toolchain.runDevelopment directory none)
  | .runProduction => discard (Toolchain.runProduction directory none)
  | .build => discard (Toolchain.build directory none)

/-- The tasks that read the settings of a project: all but the one that makes it. -/
def Task.readsSettings : Task → Bool
  | .createProject _ => false
  | _ => true

/-- The lines of its journal that a run shows. -/
def shown (detailed : Bool) (before after : Workspace) : List String :=
  Journal.lines (if detailed then .debug else .warning) (after.journal.drop before.journal.length)

/-- The characters that tell of a failure: a line that names the task and what went wrong, then a
line for each error behind it. -/
def failureText (task : Task) (f : Failure) : List Char :=
  ("ERROR: " ++ task.words.1 ++ " " ++ task.words.2 ++ " failed: " ++ f.message ++ "\n").toList ++
    f.causes.flatMap fun e => ("  caused by: " ++ e.message ++ "\n").toList

/-- What a run makes of the end of the work behind a task: a report, which leaves everything as the
work left it. The report of a failure names it on the first line that is not of the journal, and
then the errors behind it. -/
def Reports (task : Task) (detailed : Bool) (w : Workspace) :
    EStateM.Result Failure Workspace Unit → Except Failure Report × Workspace → Prop
  | .ok _ after, run => ∃ output errors, run = (.ok ⟨0, output, errors⟩, after) ∧
    errors.toList = (shown detailed w after).flatMap fun line => line.toList ++ ['\n']
  | .error f after, run => (∀ line ∈ shown detailed w after, ¬ "ERROR".toList <+: line.toList) ∧
    ∃ errors, run = (.ok ⟨1, "", errors⟩, after) ∧ errors.toList =
      ((shown detailed w after).flatMap fun line => line.toList ++ ['\n']) ++ failureText task f

theorem toList_ofLines (lines : List String) :
    (Text.ofLines lines).toList = lines.flatMap fun line => line.toList ++ ['\n'] := by
  rw [Text.toList_ofLines, Text.ended, List.flatMap_map]

theorem toList_failureLines (task : Task) (f : Failure) :
    (Text.ofLines (failureLines task f)).toList = failureText task f := by
  have hcauses : (f.causes.map fun e => s!"  caused by: {e.message}").flatMap
      (fun line => line.toList ++ ['\n']) =
      f.causes.flatMap fun e => ("  caused by: " ++ e.message ++ "\n").toList := by
    rw [List.flatMap_map]
    simp [toString]
  rw [toList_ofLines, failureLines, List.flatMap_cons, hcauses, failureText]
  simp [toString]

/-- Telling the result of a task in lines does nothing more. -/
theorem Task.discard_perform (task : Task) (directory : Path) :
    discard (task.perform directory) = task.call directory := by
  cases task with
  | createProject name | createDomain name | runDevelopment | build =>
    exact Work.discard_bind fun _ => ⟨_, rfl⟩
  | createDocs | runMigrations | generateMigrations | runProduction =>
    refine Work.discard_bind fun a => ?_
    cases a <;> exact ⟨_, rfl⟩

theorem Task.tellsOn_call {task : Task} {directory : Path}
    (h : task.readsSettings = true → w.LoadsForeseen (directory.absolute w.place)) :
    Work.TellsOn w (task.call directory) := by
  have hdiscard {α : Type} {x : Work α} (hx : Work.TellsOn w x) : Work.TellsOn w (discard x) :=
    fun e w' he => hx e w' (Work.discard_eq_error he)
  cases task with
  | createProject name => exact hdiscard (Project.tells_create _ _ _ _).on
  | createDomain name => exact hdiscard (Domain.tellsOn_create (h rfl) _ _)
  | createDocs => exact hdiscard (Toolchain.tellsOn_exportDocs (h rfl))
  | generateMigrations name => exact hdiscard (Migration.tellsOn_generate (h rfl) _ _)
  | runMigrations => exact hdiscard (Toolchain.tellsOn_runMigrations (h rfl))
  | runDevelopment => exact hdiscard (Toolchain.tellsOn_runDevelopment (h rfl))
  | runProduction => exact hdiscard (Toolchain.tellsOn_runProduction (h rfl))
  | build => exact hdiscard (Toolchain.tellsOn_build (h rfl))

theorem Command.run_reports {task : Task} {directory : String} {detailed : Bool}
    (h : task.readsSettings = true → w.LoadsForeseen ((Path.ofString directory).absolute w.place)) :
    Reports task detailed w (task.call (.ofString directory) w)
      (Command.run ⟨task, some directory, detailed⟩ w) := by
  have hperform : Command.perform ⟨task, some directory, detailed⟩ =
    task.perform (.ofString directory) := rfl
  rw [← task.discard_perform]
  cases hp : task.perform (.ofString directory) w with
  | ok lines after =>
    have hrun : Command.run ⟨task, some directory, detailed⟩ w =
        (.ok ⟨0, Text.ofLines lines, Text.ofLines (shown detailed w after)⟩, after) := by
      unfold Command.run
      simp only [hperform, hp]
      rfl
    rw [Work.discard_of_ok hp, hrun]
    exact ⟨_, _, rfl, toList_ofLines _⟩
  | error f after =>
    have hfail : discard (task.perform (.ofString directory)) w = .error f after :=
      Work.bind_of_error hp _
    have htold : f.isForeseen = true := by
      rw [task.discard_perform] at hfail
      exact (Task.tellsOn_call h f after hfail).isForeseen
    have hrun : Command.run ⟨task, some directory, detailed⟩ w =
        (.ok ⟨1, "", Text.ofLines (shown detailed w after ++ failureLines task f)⟩, after) := by
      unfold Command.run
      simp only [hperform, hp, htold, if_true]
      rfl
    rw [hfail, hrun]
    refine ⟨fun line hline => ?_, _, rfl, ?_⟩
    · obtain ⟨e, -, rfl⟩ := List.mem_map.1 hline
      exact e.not_error_prefix
    · rw [toList_ofLines, List.flatMap_append, ← toList_ofLines (failureLines task f),
        toList_failureLines]

/-- However a task is spelled out, a run does the work behind it and reports how that ended. -/
theorem run_args {task : Task} {directory : String} (s : Spelling task directory)
    (h : task.readsSettings = true → w.LoadsForeseen ((Path.ofString directory).absolute w.place)) :
    run s.args w = Command.run ⟨task, some directory, s.detailed⟩ w ∧
      Reports task s.detailed w (task.call (.ofString directory) w) (run s.args w) := by
  have hrun : run s.args w = Command.run ⟨task, some directory, s.detailed⟩ w := by
    unfold run
    rw [s.read_args]
  exact ⟨hrun, hrun ▸ Command.run_reports h⟩

def buildHere : Spelling .build "." where
  detailed := false
  given := [⟨"dir", ".", false⟩]
  all := by decide
  isRead := by decide

def toolChosen : Yaml.Document :=
  ⟨.collection 0,
    #[some (.mapping [(.text (Text.CodePoint.ofChars "tools".toList), .collection 2)]),
      none,
      some (.mapping
        [(.text (Text.CodePoint.ofChars "cargo".toList),
            .atom (.text (Text.CodePoint.ofChars "make".toList)))]),
      none, none]⟩

/-- A project in which the first program that is started fails. -/
def failing (t : FileTree) : Workspace :=
  { Workspace.bare with tree := t, script := [⟨[], .exited 2 "" ""⟩] }

theorem loadsForeseen_of_spellsOut {project : Path} {d : Yaml.Document}
    (h : Settings.SpellsOut w project d) : w.LoadsForeseen project := by
  obtain ⟨l, bytes, hr, hl, hd⟩ := h
  intro bytes' hb e he
  obtain ⟨-, l', hr', hl'⟩ := Work.readBytes_eq_ok_iff.1 hb
  rw [hr'.eq, ← hr.eq, hl] at hl'
  obtain rfl := Node.file.inj (Option.some.inj hl')
  rw [hd] at he
  cases he

theorem exists_toolChosen : ∃ t : FileTree,
    t.get? ["prustbowo.yaml"] = some (.file (Text.encode "tools:\n  cargo: make\n")) ∧
    Settings.SpellsOut (failing t) ⟨.root, []⟩ toolChosen := by
  obtain ⟨v, -, -, -, hget⟩ := Workspace.exists_lone_file
    (by decide : FileTree.Fits ["prustbowo.yaml"]) "tools:\n  cargo: make\n"
  have hfile : v.tree.get? ["prustbowo.yaml"] = _ := (hget _ _).2 (.inr ⟨rfl, rfl⟩)
  have hreach : (failing v.tree).Reaches ((⟨.root, []⟩ : Path) / Failure.settingsFile)
      ["prustbowo.yaml"] := by
    rw [Path.child_of_not_mem (by decide) (by decide) (by decide)]
    exact Workspace.reaches_root (by decide) (FileTree.get?_root _) (by decide)
  refine ⟨v.tree, hfile, _, _, hreach, hfile, ?_⟩
  rw [Yaml.Pieces.text_encode (by decide) (by decide) (by decide), if_pos (by decide)]
  decide +kernel

/-- Where the build fails the report names the task, the tool that the settings file chooses,
and its status. -/
theorem run_args_build : ∃ w after : Workspace,
    w.tree.get? ["prustbowo.yaml"] = some (.file (Text.encode "tools:\n  cargo: make\n")) ∧
    run ["run", "build", "--dir=."] w =
      (.ok ⟨1, "", "ERROR: run build failed: make build: exited with status 2\n"⟩, after) ∧
    after.started = [⟨["make", "build"], "/", false⟩] := by
  obtain ⟨t, hfile, hspelled⟩ := exists_toolChosen
  obtain ⟨-, hreport⟩ := run_args buildHere fun _ => loadsForeseen_of_spellsOut hspelled
  have hload := Settings.load_of_spellsOut hspelled (.ok { tools := { cargo := "make" } }) rfl
  have hopened : Toolchain.openProject (.ofString ".") none (failing t) =
      .ok (⟨.root, []⟩, { tools := { cargo := "make" } }) (failing t) :=
    (Work.bind_of_ok (Work.absolute_run rfl) _).trans (Work.bind_of_ok hload _)
  obtain ⟨after, hrun, hstarted, hshown⟩ : ∃ after,
      Work.run ["make", "build"] "/" false (failing t) =
      .error (.program ⟨["make", "build"], some 2, "", Program.Failure.defaultReason⟩ none) after ∧
        after.started = [⟨["make", "build"], "/", false⟩] ∧
        shown buildHere.detailed (failing t) after = [] :=
    ⟨_, rfl, rfl, rfl⟩
  have hcall : Task.build.call (.ofString ".") (failing t) = _ :=
    Work.bind_of_error ((Work.bind_of_ok hopened _).trans hrun) _
  have hargs : buildHere.args = ["run", "build", "--dir=."] := by decide
  rw [hargs, hcall] at hreport
  obtain ⟨-, errors, hreported, herrors⟩ := hreport
  obtain rfl : errors = "ERROR: run build failed: make build: exited with status 2\n" := by
    rw [← String.toList_inj, herrors, hshown]
    decide
  exact ⟨failing t, after, hfile, hreported, hstarted⟩

end CommandLine
end ApiScaffold
