import ApiScaffold.Proofs.Errors
import ApiScaffold.Settings.OfDocument

/-! The settings one by one. Each is read from a value of its own, so settings are what each of them
reads, and where they cannot be read one of them cannot. -/
namespace ApiScaffold
open Yaml (Document Value valueFor?)

inductive Setting where
  | name
  | crate
  | domainRoot
  | routeFile
  | migrations
  | docsFile
  | imports
  | routes
  | cargo
  | diesel
  | git
  | server
  | migrate
  | exportDocs
  deriving DecidableEq, Repr

namespace Setting
open Settings (Entries)

def sectionKey? : Setting → Option String
  | name | crate => none
  | domainRoot | routeFile | migrations | docsFile => some "layout"
  | imports | routes => some "markers"
  | cargo | diesel | git | server | migrate | exportDocs => some "tools"

def key : Setting → String
  | name => "name"
  | crate => "crate"
  | domainRoot => "domain_root"
  | routeFile => "route_file"
  | migrations => "migrations_dir"
  | docsFile => "docs_file"
  | imports => "imports"
  | routes => "routes"
  | cargo => "cargo"
  | diesel => "diesel"
  | git => "git"
  | server => "server_bin"
  | migrate => "migrate_bin"
  | exportDocs => "docs_bin"

def of (settings : Settings) : Setting → String
  | name => settings.name
  | crate => settings.crate
  | domainRoot => settings.layout.domainRoot
  | routeFile => settings.layout.routeFile
  | migrations => settings.layout.migrations
  | docsFile => settings.layout.docsFile
  | imports => settings.markers.imports
  | routes => settings.markers.routes
  | cargo => settings.tools.cargo
  | diesel => settings.tools.diesel
  | git => settings.tools.git
  | server => settings.tools.server
  | migrate => settings.tools.migrate
  | exportDocs => settings.tools.exportDocs

def default (s : Setting) : String :=
  s.of {}

def value? (d : Document) (entries : Entries) (s : Setting) : Option Value :=
  match s.sectionKey? with
  | none => valueFor? s.key entries
  | some key => ((valueFor? key entries).bind d.entries?).bind (valueFor? s.key)

/-- Whether a value leaves a setting as it is by default. In a section none does. -/
def unset (d : Document) (s : Setting) (v : Value) : Bool :=
  s.sectionKey? = none && d.isFalsy v

def read (d : Document) (entries : Entries) (s : Setting) : Except Failure String :=
  match s.sectionKey? with
  | none => Settings.topText d s.key entries
  | some key => do Settings.text d s.key s.default (← Settings.sectionOf d key entries)

end Setting

namespace Settings

/-- Settings of what each of them reads. -/
def gather (read : Setting → Except Failure String) : Except Failure Settings := do
  let name ← read .name
  let crate ← read .crate
  let domainRoot ← read .domainRoot
  let routeFile ← read .routeFile
  let migrations ← read .migrations
  let docsFile ← read .docsFile
  let imports ← read .imports
  let routes ← read .routes
  let cargo ← read .cargo
  let diesel ← read .diesel
  let git ← read .git
  let server ← read .server
  let migrate ← read .migrate
  let exportDocs ← read .exportDocs
  return {
    name, crate
    layout := { domainRoot, routeFile, migrations, docsFile }
    markers := { imports, routes }
    tools := { cargo, diesel, git, server, migrate, exportDocs } }

theorem gather_eq_ok_iff {read : Setting → Except Failure String} {settings : Settings} :
    gather read = .ok settings ↔ ∀ s : Setting, read s = .ok (s.of settings) := by
  constructor
  · intro h
    simp only [gather, except_bind_eq_ok_iff] at h
    obtain ⟨_, _, _, _, _, _, _, _, _, _, _, _, _, _, _, _, _, _, _, _, _, _, _, _, _, _,
      _, _, hend⟩ := h
    obtain rfl := Except.ok.inj hend
    intro s
    cases s <;> assumption
  · intro h
    simp only [gather, h]
    rfl

theorem errsOnly_gather {kind : Failure → Prop} {read : Setting → Except Failure String}
    (h : ∀ s, ErrsOnly kind (read s)) : ErrsOnly kind (gather read) := by
  unfold gather
  iterate 14 refine (h _).bind fun _ => ?_
  exact errsOnly_ok _

theorem ofEntries_eq (d : Document) (entries : Entries) :
    ofEntries d entries = gather (Setting.read d entries) := by
  unfold ofEntries Layout.ofEntries Markers.ofEntries Tools.ofEntries gather
  cases hl : sectionOf d "layout" entries <;> cases hm : sectionOf d "markers" entries <;>
    cases ht : sectionOf d "tools" entries <;>
    simp [Setting.read, Setting.sectionKey?, Setting.key, Setting.default, Setting.of, hl, hm, ht]

/-- What a setting is, given its value and the values that leave it as it is by default. -/
inductive Chooses (d : Document) (unset : Value → Prop) (usual : String) :
    Option Value → String → Prop
  | absent : Chooses d unset usual none usual
  | unset {v : Value} (h : unset v) : Chooses d unset usual (some v) usual
  | told {v : Value} {t : String} (h : ¬ unset v) (ht : d.text v = .ok t) :
    Chooses d unset usual (some v) t

section
variable {d : Document} {unset : Value → Prop} {usual key t : String} {value : Option Value}
  {entries : Entries} {e : Failure}

theorem chooses_none_iff : Chooses d unset usual none t ↔ t = usual := by
  constructor
  · rintro ⟨⟩
    rfl
  · rintro rfl
    exact .absent

theorem chooses_some_iff {v : Value} :
    Chooses d unset usual (some v) t ↔ unset v ∧ t = usual ∨ ¬ unset v ∧ d.text v = .ok t := by
  constructor
  · rintro (_ | hu | ⟨hn, ht⟩)
    · exact .inl ⟨hu, rfl⟩
    · exact .inr ⟨hn, ht⟩
  · rintro (⟨hu, rfl⟩ | ⟨hn, ht⟩)
    · exact .unset hu
    · exact .told hn ht

theorem mapError_yaml_eq_ok_iff {x : Except Yaml.Fault String} :
    x.mapError Failure.yaml = .ok t ↔ x = .ok t := by
  cases x with
  | ok u => exact ⟨fun h => congrArg _ (Except.ok.inj h), fun h => congrArg _ (Except.ok.inj h)⟩
  | error f => constructor <;> rintro ⟨⟩

/-- A section is no mapping, although it does not count as nothing. -/
def StraySection (d : Document) (entries : Entries) (key : String) : Prop :=
  ∃ v, valueFor? key entries = some v ∧ d.isFalsy v = false ∧ d.entries? v = none

theorem entries?_of_isFalsy {v : Value} (h : d.isFalsy v = true) : (d.entries? v).getD [] = [] := by
  cases v with
  | atom a => rfl
  | collection n =>
    rw [Document.isFalsy, Option.all_eq_true] at h
    rw [Document.entries?]
    cases hc : d.collection? n with
    | none => rfl
    | some c =>
      cases c with
      | mapping entries =>
        exact List.isEmpty_iff.1 (h _ hc)
      | list | pairs | set => rfl

theorem unlessFalsy_none : unlessFalsy d none = none :=
  rfl

theorem unlessFalsy_some (v : Value) :
    unlessFalsy d (some v) = if d.isFalsy v then none else some v := by
  cases hv : d.isFalsy v <;> simp [unlessFalsy, Option.filter, hv]

theorem sectionOf_of_stray (h : StraySection d entries key) :
    sectionOf d key entries = .error (.sectionNotMapping key) := by
  obtain ⟨v, hv, hfalsy, hnone⟩ := h
  simp [sectionOf, unlessFalsy_some, hv, hfalsy, hnone]

theorem sectionOf_of_not_stray (h : ¬ StraySection d entries key) :
    sectionOf d key entries = .ok (((valueFor? key entries).bind d.entries?).getD []) := by
  cases hv : valueFor? key entries with
  | none => simp [sectionOf, unlessFalsy_none, hv]
  | some v =>
    by_cases hfalsy : d.isFalsy v = true
    · simp [sectionOf, unlessFalsy_some, hv, hfalsy, entries?_of_isFalsy hfalsy]
    · cases he : d.entries? v with
      | some inner => simp [sectionOf, unlessFalsy_some, hv, hfalsy, he]
      | none => exact absurd ⟨v, hv, by simpa using hfalsy, he⟩ h

theorem textOr_filter_eq_ok_iff {unset : Value → Bool} :
    textOr d usual (value.filter (!unset ·)) = .ok t ↔
    Chooses d (unset · = true) usual value t := by
  cases value with
  | none =>
    rw [chooses_none_iff]
    simp [textOr, eq_comm]
  | some v =>
    rw [chooses_some_iff, Option.filter_some]
    cases hv : unset v with
    | true => simp [textOr, eq_comm]
    | false => simp [textOr, mapError_yaml_eq_ok_iff]

theorem textOr_eq_error (h : textOr d usual value = .error e) :
    ∃ v f, value = some v ∧ d.text v = .error f ∧ e = .yaml f := by
  cases value with
  | none => cases h
  | some v =>
    change (d.text v).mapError Failure.yaml = _ at h
    cases ht : d.text v with
    | ok t =>
      rw [ht] at h
      cases h
    | error f =>
      rw [ht] at h
      exact ⟨v, f, rfl, ht, (Except.error.inj h).symm⟩

end

end Settings

namespace Setting
open Settings (Entries StraySection Chooses)
variable {d : Document} {entries : Entries} {s : Setting} {t : String} {e : Failure}

theorem valueFor?_getD (key : String) (inner : Option Entries) :
    valueFor? key (inner.getD []) = inner.bind (valueFor? key) := by
  cases inner <;> rfl

theorem default_of_top (h : s.sectionKey? = none) : s.default = "" := by
  cases s
  case name | crate => rfl
  all_goals cases h

/-- A setting whose section is a mapping, or counts as nothing, is the text of its value. -/
theorem read_of_not_stray (h : ∀ key, s.sectionKey? = some key → ¬ StraySection d entries key) :
    s.read d entries = Settings.textOr d s.default
      ((s.value? d entries).filter (!s.unset d ·)) := by
  unfold read value? unset
  cases hk : s.sectionKey? with
  | none => simp [Settings.topText, Settings.unlessFalsy, default_of_top hk]
  | some key =>
    have hall (v : Option Value) : v.filter (fun _ => true) = v := by cases v <;> rfl
    simp [Settings.sectionOf_of_not_stray (h key hk), Settings.text, valueFor?_getD, hall]

theorem read_of_stray {key : String} (hkey : s.sectionKey? = some key)
    (h : StraySection d entries key) : s.read d entries = .error (.sectionNotMapping key) := by
  unfold read
  simp [hkey, Settings.sectionOf_of_stray h]

/-- A setting can be read if its section is no stray value, and if it has a text where it needs
one. -/
theorem read_eq_ok_iff :
    s.read d entries = .ok t ↔ (∀ key, s.sectionKey? = some key → ¬ StraySection d entries key) ∧
    Chooses d (s.unset d · = true) s.default (s.value? d entries) t := by
  by_cases hstray : ∃ key, s.sectionKey? = some key ∧ StraySection d entries key
  · obtain ⟨key, hkey, h⟩ := hstray
    rw [read_of_stray hkey h]
    exact ⟨nofun, fun hno => absurd h (hno.1 key hkey)⟩
  · have h : ∀ key, s.sectionKey? = some key → ¬ StraySection d entries key :=
      fun key hkey h => hstray ⟨key, hkey, h⟩
    rw [read_of_not_stray h, Settings.textOr_filter_eq_ok_iff, and_iff_right h]

/-- Why a setting cannot be read. -/
theorem read_eq_error (h : s.read d entries = .error e) :
    (∃ key, s.sectionKey? = some key ∧ StraySection d entries key ∧ e = .sectionNotMapping key) ∨
      ∃ v f, s.value? d entries = some v ∧ s.unset d v = false ∧ d.text v = .error f ∧
        e = .yaml f := by
  by_cases hstray : ∃ key, s.sectionKey? = some key ∧ StraySection d entries key
  · obtain ⟨key, hkey, hs⟩ := hstray
    rw [read_of_stray hkey hs] at h
    exact .inl ⟨key, hkey, hs, (Except.error.inj h).symm⟩
  · rw [read_of_not_stray fun key hkey h => hstray ⟨key, hkey, h⟩] at h
    obtain ⟨v, f, hv, ht, he⟩ := Settings.textOr_eq_error h
    rw [Option.filter_eq_some_iff] at hv
    exact .inr ⟨v, f, hv.1, by simpa using hv.2, ht, he⟩

end Setting
end ApiScaffold
