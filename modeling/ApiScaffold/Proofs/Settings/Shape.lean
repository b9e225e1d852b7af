import ApiScaffold.Proofs.Settings.Keys
import ApiScaffold.Proofs.Settings.Load
import ApiScaffold.Proofs.Yaml.Pieces
import ApiScaffold.Proofs.Yaml.Telling

/-! The shape of a settings file. As a whole and in each section it is a mapping or nothing, and it
is refused where it is not. What counts as nothing is more than null, so some files of another shape
are not refused. -/
namespace ApiScaffold.Settings
open Yaml (Document Value Fault valueFor?)
variable {w w' : Workspace} {project file : Path} {d : Document} {v : Value} {key : String}
  {entries : Entries} {settings : Settings} {s : Setting} {e : Failure}

def entriesOf (d : Document) : Entries :=
  (d.entries? d.root).getD []

def sectionKeys : List String :=
  ["layout", "markers", "tools"]

/-- The values of a settings file that are mappings, if they are anything: itself and its
sections. -/
def MappingPlace (d : Document) (v : Value) : Prop :=
  v = d.root ∨ ∃ key ∈ sectionKeys, valueFor? key (entriesOf d) = some v

/-- A value that must be a mapping is none, and it is not nothing either. -/
def Misshapen (nothing : Value → Prop) (d : Document) : Prop :=
  ∃ v, MappingPlace d v ∧ ¬ nothing v ∧ d.entries? v = none

/-- The value of a setting has no text. Depth is never the reason: the stack of a run does not bound
the texts of values here. -/
def Untellable (d : Document) : Prop :=
  ∃ (s : Setting) (v : Value), s.value? d (entriesOf d) = some v ∧ s.unset d v = false ∧
    ∀ t, d.text v ≠ .ok t

theorem sectionKey?_mem (h : s.sectionKey? = some key) : key ∈ sectionKeys := by
  cases s
  case name | crate => cases h
  all_goals
    obtain rfl := Option.some.inj h
    decide

theorem exists_sectionKey? (h : key ∈ sectionKeys) : ∃ s : Setting, s.sectionKey? = some key := by
  simp only [sectionKeys, List.mem_cons, List.not_mem_nil, or_false] at h
  rcases h with rfl | rfl | rfl
  · exact ⟨.domainRoot, rfl⟩
  · exact ⟨.imports, rfl⟩
  · exact ⟨.cargo, rfl⟩

theorem misshapen_of_stray (hkey : key ∈ sectionKeys) (h : StraySection d (entriesOf d) key) :
    Misshapen (d.isFalsy · = true) d := by
  obtain ⟨v, hv, hfalsy, hnone⟩ := h
  exact ⟨v, .inr ⟨key, hkey, hv⟩, by simp [hfalsy], hnone⟩

/-- A file that is no mapping is refused, unless it counts as nothing. -/
theorem ofDocument_of_stray (hfalsy : d.isFalsy d.root = false) (hnone : d.entries? d.root = none) :
    ofDocument file d = .error (.settingsNotMapping file) := by
  simp [ofDocument, unlessFalsy_some, hfalsy, hnone]

theorem ofDocument_of_not_stray (h : d.isFalsy d.root = false → d.entries? d.root ≠ none) :
    ofDocument file d = ofEntries d (entriesOf d) := by
  unfold ofDocument entriesOf
  cases hfalsy : d.isFalsy d.root with
  | true => simp [unlessFalsy_some, hfalsy, entries?_of_isFalsy hfalsy]
  | false =>
    obtain ⟨entries, he⟩ := Option.ne_none_iff_exists'.1 (h hfalsy)
    simp [unlessFalsy_some, hfalsy, he]

/-- The settings of a file that is not misshapen are what each of them chooses. -/
theorem ofDocument_eq_ok_iff :
    ofDocument file d = .ok settings ↔ ¬ Misshapen (d.isFalsy · = true) d ∧ ∀ s : Setting,
      Chooses d (s.unset d · = true) s.default (s.value? d (entriesOf d)) (s.of settings) := by
  by_cases hroot : d.isFalsy d.root = false ∧ d.entries? d.root = none
  · rw [ofDocument_of_stray hroot.1 hroot.2]
    exact ⟨nofun, fun h => absurd ⟨d.root, .inl rfl, by simp [hroot.1], hroot.2⟩ h.1⟩
  rw [ofDocument_of_not_stray fun hfalsy hnone => hroot ⟨hfalsy, hnone⟩, ofEntries_eq,
    gather_eq_ok_iff]
  constructor
  · intro h
    refine ⟨?_, fun s => (Setting.read_eq_ok_iff.1 (h s)).2⟩
    rintro ⟨v, rfl | ⟨key, hkey, hv⟩, hfalsy, hnone⟩
    · exact hroot ⟨by simpa using hfalsy, hnone⟩
    · obtain ⟨s, hs⟩ := exists_sectionKey? hkey
      exact (Setting.read_eq_ok_iff.1 (h s)).1 key hs ⟨v, hv, by simpa using hfalsy, hnone⟩
  · rintro ⟨hshape, h⟩ s
    refine Setting.read_eq_ok_iff.2 ⟨fun key hkey hstray => ?_, h s⟩
    exact hshape (misshapen_of_stray (sectionKey?_mem hkey) hstray)

inductive Blame (file : Path) (d : Document) : Failure → Prop
  | file (hfalsy : d.isFalsy d.root = false) (hnone : d.entries? d.root = none) :
      Blame file d (.settingsNotMapping file)
  | part {key : String} (hkey : key ∈ sectionKeys) (h : StraySection d (entriesOf d) key) :
      Blame file d (.sectionNotMapping key)
  | number {s : Setting} {v : Value} (hv : s.value? d (entriesOf d) = some v)
      (hset : s.unset d v = false) (ht : d.text v = .error (.digits none)) :
      Blame file d (.yaml (.digits none))

theorem Blame.reason (h : Blame file d e) : Misshapen (d.isFalsy · = true) d ∨ Untellable d := by
  cases h with
  | file hfalsy hnone => exact .inl ⟨d.root, .inl rfl, by simp [hfalsy], hnone⟩
  | part hkey h => exact .inl (misshapen_of_stray hkey h)
  | number hv hset ht => exact .inr ⟨_, _, hv, hset, by simp [ht]⟩

theorem mem_of_valueFor? (h : valueFor? key entries = some v) : v ∈ entries.map (·.2) := by
  obtain ⟨p, hp, rfl⟩ := Option.map_eq_some_iff.1 h
  exact List.mem_map_of_mem (List.mem_of_find?_eq_some hp)

theorem has_of_value? (hd : d.Closed) (h : s.value? d (entriesOf d) = some v) : d.Has v := by
  have htop (key : String) (v : Value) (hv : valueFor? key (entriesOf d) = some v) : d.Has v := by
    cases he : d.entries? d.root with
    | none =>
      rw [entriesOf, he] at hv
      cases hv
    | some entries =>
      rw [entriesOf, he] at hv
      exact hd.has_of_entries he (mem_of_valueFor? hv)
  unfold Setting.value? at h
  split at h
  · exact htop _ v h
  · obtain ⟨inner, hinner, hv⟩ := Option.bind_eq_some_iff.1 h
    obtain ⟨x, -, he⟩ := Option.bind_eq_some_iff.1 hinner
    exact hd.has_of_entries he (mem_of_valueFor? hv)

theorem blame_of_ofDocument (hd : d.Closed) (h : ofDocument file d = .error e) :
    Blame file d e := by
  by_cases hroot : d.isFalsy d.root = false ∧ d.entries? d.root = none
  · rw [ofDocument_of_stray hroot.1 hroot.2] at h
    obtain rfl := Except.error.inj h
    exact .file hroot.1 hroot.2
  rw [ofDocument_of_not_stray fun hfalsy hnone => hroot ⟨hfalsy, hnone⟩, ofEntries_eq] at h
  refine errsOnly_gather (fun s e he => ?_) e h
  rcases Setting.read_eq_error he with ⟨key, hkey, hstray, rfl⟩ | ⟨v, f, hv, hset, ht, rfl⟩
  · exact .part (sectionKey?_mem hkey) hstray
  · obtain rfl := hd.errsOnly_text (has_of_value? hd hv) f ht
    exact .number hv hset ht

/-- A document is refused if and only if something in it that must be a mapping is none and does not
count as nothing, or if a setting has no text. -/
theorem ofDocument_error_iff (hd : d.Closed) (file : Path) :
    (∃ e, ofDocument file d = .error e) ↔ Misshapen (d.isFalsy · = true) d ∨ Untellable d := by
  constructor
  · rintro ⟨e, he⟩
    exact (blame_of_ofDocument hd he).reason
  · intro hreason
    cases hof : ofDocument file d with
    | error e => exact ⟨e, rfl⟩
    | ok settings =>
      obtain ⟨hshape, hchooses⟩ := ofDocument_eq_ok_iff.1 hof
      rcases hreason with hmis | ⟨s, v, hv, hset, ht⟩
      · exact absurd hmis hshape
      · have hs := hchooses s
        rw [hv, chooses_some_iff] at hs
        rcases hs with ⟨hunset, -⟩ | ⟨-, hs⟩
        · simp [hset] at hunset
        · exact absurd hs (ht _)

/-- The settings file of a project spells out a document. -/
def SpellsOut (w : Workspace) (project : Path) (d : Document) : Prop :=
  ∃ l bytes, w.Reaches (project / Failure.settingsFile) l ∧ w.tree.get? l = some (.file bytes) ∧
    Document.ofText (Yaml.Pieces.text bytes).1 (Yaml.Pieces.text bytes).2 = .ok d

theorem SpellsOut.closed (h : SpellsOut w project d) : d.Closed := by
  obtain ⟨l, bytes, -, -, hd⟩ := h
  exact Document.closed_of_ofText hd

/-- What the document of a settings file gives is loaded, with the environment's choice. -/
theorem load_of_spellsOut (h : SpellsOut w project d) (result : Except Failure Settings)
    (hd : ofDocument (project / Failure.settingsFile) d = result) :
    load project w = match result with
      | .ok settings => .ok (settings.chosen w.cargo) w
      | .error f => .error f w := by
  obtain ⟨l, bytes, hr, hl, hspelled⟩ := h
  have hbytes : ofBytes (project / Failure.settingsFile) bytes = result := by
    unfold ofBytes
    simp only [hspelled, hd]
  rw [load_run_of_file hr hl, hbytes]
  cases result <;> rfl

theorem load_eq_error_iff (h : SpellsOut w project d) : load project w = .error e w' ↔
    ofDocument (project / Failure.settingsFile) d = .error e ∧ w' = w := by
  cases hd : ofDocument (project / Failure.settingsFile) d with
  | ok settings => simp [load_of_spellsOut h _ hd]
  | error f => simp [load_of_spellsOut h _ hd, eq_comm]

theorem exists_error_iff (h : SpellsOut w project d) :
    (∃ e w', load project w = .error e w') ↔ Misshapen (d.isFalsy · = true) d ∨ Untellable d := by
  rw [← ofDocument_error_iff h.closed (project / Failure.settingsFile)]
  simp only [load_eq_error_iff h, exists_eq_right]

theorem misshapen_null_iff
    (hplain : ∀ v, MappingPlace d v → d.isFalsy v = true → v = .atom .null ∨ d.entries? v ≠ none) :
    Misshapen (d.isFalsy · = true) d ↔ Misshapen (· = .atom .null) d := by
  constructor
  · rintro ⟨v, hplace, hfalsy, hnone⟩
    exact ⟨v, hplace, fun hnull => hfalsy (hnull ▸ rfl), hnone⟩
  · rintro ⟨v, hplace, hnull, hnone⟩
    exact ⟨v, hplace, fun hfalsy => (hplain v hplace hfalsy).elim hnull (· hnone), hnone⟩

theorem exists_spellsOut {text : String} (hne : text ≠ "") (hreturn : '\r' ∉ text.toList)
    (hlength : 4 * text.toList.length ≤ Yaml.Pieces.chunkSize)
    (hallowed : text.toList.all Yaml.isAllowed = true)
    (hd : Document.ofText text.toList none = .ok d) :
    ∃ w : Workspace, w.cargo = none ∧ SpellsOut w ⟨.here, []⟩ d := by
  obtain ⟨w, hr, hl⟩ :=
    Workspace.exists_file (by decide : FileTree.Fits [Failure.settingsFile]) text
  have hpieces : Yaml.Pieces.text (Text.encode text) = (text.toList, none) := by
    rw [Yaml.Pieces.text_encode hne hreturn hlength, if_pos hallowed]
  refine ⟨{ w with cargo := none }, rfl, [Failure.settingsFile], Text.encode text, hr, hl, ?_⟩
  rw [hpieces]
  exact hd

/-- Which settings files are refused, and why. Nothing has changed then. Where only null and
mappings count as nothing, those are refused that hold something else in place of a mapping. -/
theorem load_refuses_iff (h : SpellsOut w project d) :
    ((∃ e w', load project w = .error e w') ↔ Misshapen (d.isFalsy · = true) d ∨ Untellable d) ∧
    (∀ e w', load project w = .error e w' → w' = w ∧ Blame (project / Failure.settingsFile) d e) ∧
    ((∀ v, MappingPlace d v → d.isFalsy v = true → v = .atom .null ∨ d.entries? v ≠ none) →
      ¬ Untellable d →
      ((∃ e w', load project w = .error e w') ↔ Misshapen (· = .atom .null) d)) := by
  refine ⟨exists_error_iff h, fun e w' he => ?_, fun hplain htell => ?_⟩
  · obtain ⟨hd, rfl⟩ := (load_eq_error_iff h).1 he
    exact ⟨rfl, blame_of_ofDocument h.closed hd⟩
  · rw [exists_error_iff h, or_iff_left htell, misshapen_null_iff hplain]

def numberForSection : Document :=
  ⟨.collection 0,
    #[some (.mapping [(.text (Text.CodePoint.ofChars "layout".toList), .atom (.int 7))]),
      none, none]⟩

theorem load_refuses_iff_number : ∃ w : Workspace, SpellsOut w ⟨.here, []⟩ numberForSection ∧
    Misshapen (· = .atom .null) numberForSection ∧ ∃ e, load ⟨.here, []⟩ w = .error e w := by
  have hspelled : Document.ofText "layout: 7\n".toList none = .ok numberForSection := by
    decide +kernel
  obtain ⟨w, -, h⟩ := exists_spellsOut (by decide) (by decide) (by decide) (by decide) hspelled
  have hlayout : valueFor? "layout" (entriesOf numberForSection) = some (.atom (.int 7)) := by
    decide
  have hshape : Misshapen (· = .atom .null) numberForSection :=
    ⟨.atom (.int 7), .inr ⟨"layout", by decide, hlayout⟩, by decide, rfl⟩
  have hplain : ∀ v, MappingPlace numberForSection v → numberForSection.isFalsy v = true →
      v = .atom .null ∨ numberForSection.entries? v ≠ none := by
    have hsections : ∀ key ∈ sectionKeys, ∀ v ∈ valueFor? key (entriesOf numberForSection),
        v = .atom (.int 7) := by
      decide
    rintro v (rfl | ⟨key, hkey, hv⟩) hfalsy
    · exact .inr (by decide)
    · rw [hsections key hkey v hv] at hfalsy
      cases hfalsy
  have htell : ¬ Untellable numberForSection := by
    rintro ⟨s, v, hv, -⟩
    cases s <;> cases hv
  obtain ⟨hreason, hblame, hiff⟩ := load_refuses_iff h
  obtain ⟨e, w', he⟩ := (hiff hplain htell).2 hshape
  obtain ⟨rfl, -⟩ := hblame e w' he
  exact ⟨w', h, hshape, e, he⟩

/-- An empty list is no mapping, but it counts as nothing, and so such a file is not refused. -/
theorem not_forall_load_refuses :
    ¬ ∀ (w : Workspace) (project : Path) (d : Document), SpellsOut w project d →
    ((∃ e w', load project w = .error e w') ↔ Misshapen (· = .atom .null) d) := by
  intro hall
  have hspelled : Document.ofText "[]\n".toList none = .ok ⟨.collection 0, #[some (.list [])]⟩ := by
    decide +kernel
  obtain ⟨w, -, h⟩ := exists_spellsOut (by decide) (by decide) (by decide) (by decide) hspelled
  have hshape : Misshapen (· = .atom .null) ⟨.collection 0, #[some (.list [])]⟩ :=
    ⟨.collection 0, .inl rfl, by decide, rfl⟩
  rcases (exists_error_iff h).1 ((hall w _ _ h).2 hshape) with ⟨v, rfl | ⟨key, hkey, hv⟩,
    hfalsy, -⟩ | ⟨s, v, hv, -⟩
  · exact hfalsy rfl
  · cases hv
  · cases s <;> cases hv

end ApiScaffold.Settings
