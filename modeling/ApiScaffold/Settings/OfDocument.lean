import ApiScaffold.Failure
import ApiScaffold.Settings.Basic
import ApiScaffold.Yaml.Document

/-! Settings from the document of a settings file. -/
namespace ApiScaffold.Settings

open Yaml (Atom Value Document valueFor?)

abbrev Entries := List (Atom × Value)

/-- A value, unless it counts as nothing. -/
def unlessFalsy (d : Document) (v : Option Value) : Option Value :=
  v.filter (!d.isFalsy ·)

def textOr (d : Document) (default : String) (v : Option Value) : Except Failure String :=
  match v with
  | none => .ok default
  | some v => (d.text v).mapError .yaml

/-- The text of a setting outside all sections. -/
def topText (d : Document) (key : String) (entries : Entries) : Except Failure String :=
  textOr d "" (unlessFalsy d (valueFor? key entries))

/-- The text of a setting in a section, or its default. -/
def text (d : Document) (key default : String) (entries : Entries) : Except Failure String :=
  textOr d default (valueFor? key entries)

def sectionOf (d : Document) (key : String) (entries : Entries) : Except Failure Entries :=
  match unlessFalsy d (valueFor? key entries) with
  | none => .ok []
  | some v =>
    match d.entries? v with
    | some inner => .ok inner
    | none => .error (.sectionNotMapping key)

def Layout.ofEntries (d : Document) (entries : Entries) : Except Failure Layout := do
  let usual : Layout := {}
  return {
    domainRoot := ← text d "domain_root" usual.domainRoot entries
    routeFile := ← text d "route_file" usual.routeFile entries
    migrations := ← text d "migrations_dir" usual.migrations entries
    docsFile := ← text d "docs_file" usual.docsFile entries }

def Markers.ofEntries (d : Document) (entries : Entries) : Except Failure Markers := do
  let usual : Markers := {}
  return {
    imports := ← text d "imports" usual.imports entries
    routes := ← text d "routes" usual.routes entries }

def Tools.ofEntries (d : Document) (entries : Entries) : Except Failure Tools := do
  let usual : Tools := {}
  return {
    cargo := ← text d "cargo" usual.cargo entries
    diesel := ← text d "diesel" usual.diesel entries
    git := ← text d "git" usual.git entries
    server := ← text d "server_bin" usual.server entries
    migrate := ← text d "migrate_bin" usual.migrate entries
    exportDocs := ← text d "docs_bin" usual.exportDocs entries }

/-- Settings from the entries of a file, in this order. Keys without a meaning are left alone. -/
def ofEntries (d : Document) (entries : Entries) : Except Failure Settings := do
  let name ← topText d "name" entries
  let crate ← topText d "crate" entries
  let layout ← Layout.ofEntries d (← sectionOf d "layout" entries)
  let markers ← Markers.ofEntries d (← sectionOf d "markers" entries)
  let tools ← Tools.ofEntries d (← sectionOf d "tools" entries)
  return { name, crate, layout, markers, tools }

/-- Settings from the document of a file, which is a mapping or counts as nothing. -/
def ofDocument (file : Path) (d : Document) : Except Failure Settings :=
  match unlessFalsy d (some d.root) with
  | none => ofEntries d []
  | some v =>
    match d.entries? v with
    | some entries => ofEntries d entries
    | none => .error (.settingsNotMapping file)

end ApiScaffold.Settings
