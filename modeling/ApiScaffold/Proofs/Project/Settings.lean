import ApiScaffold.Proofs.Project.Stamp
import ApiScaffold.Proofs.Settings.Load
import ApiScaffold.Proofs.Settings.Spelled

/-! Reading back the settings of a new project. Its name and identifier come back if and only if
nothing in the name is refused, folded or dropped between single quotes. -/
namespace ApiScaffold.Project
open FileTree Yaml Yaml.Scalar
variable {w w' : Workspace} {name : String} {parent : Path} {created : Created} {git : Bool}

/-- Names that come back from a settings file: each character may stand in it, there is no next line
character, no blank is beside a separator, and no mark between documents is behind one. -/
structure Kept (name : List Char) : Prop where
  allowed : ∀ c ∈ name, isAllowed c = true
  noNextLine : '\u0085' ∉ name
  apart : name.IsChain Yaml.Apart
  unmarked : ∀ front c mark d back, name = front ++ c :: (mark ++ d :: back) → isBreak c = true →
    mark ∈ marks → (isBlank d || isBreak d) = false

theorem kept_iff {name : List Char} : Kept name ↔ name.all isAllowed = true ∧ '\u0085' ∉ name ∧
    name.IsChain Yaml.Apart ∧ holdsMark name = false := by
  rw [List.all_eq_true]
  constructor
  · intro h
    refine ⟨h.allowed, h.noNextLine, h.apart, ?_⟩
    rw [← Bool.not_eq_true, holdsMark_iff]
    rintro ⟨front, c, mark, d, back, he, hc, hmark, hd⟩
    rw [h.unmarked front c mark d back he hc hmark] at hd
    cases hd
  · rintro ⟨hallowed, hnext, hapart, hmark⟩
    refine ⟨hallowed, hnext, hapart, fun front c mark d back he hc hm => ?_⟩
    rw [← Bool.not_eq_true]
    intro hd
    rw [holdsMark_iff.2 ⟨front, c, mark, d, back, he, hc, hm, hd⟩] at hmark
    cases hmark

instance : DecidablePred Kept := fun _ => decidable_of_iff _ kept_iff.symm

/-- A character of a name as it is in the identifier. -/
def dashless (c : Char) : Char :=
  if c = '-' then '_' else c

theorem toList_crateIdentifier (name : String) :
    (crateIdentifier name).toList = name.toList.map dashless :=
  String.toList_ofList

theorem dashless_eq_iff {c d : Char} (hd : d ≠ '-') (hd' : d ≠ '_') : dashless c = d ↔ c = d := by
  unfold dashless
  split
  · rename_i h
    subst h
    exact iff_of_false hd'.symm hd.symm
  · rfl

theorem dashless_kinds (c : Char) : isAllowed (dashless c) = isAllowed c ∧
    isBlank (dashless c) = isBlank c ∧ isBreak (dashless c) = isBreak c := by
  unfold dashless
  split
  · rename_i h
    subst h
    decide
  · exact ⟨rfl, rfl, rfl⟩

theorem mem_dashless_iff {c : Char} (hc : c ≠ '-') (hc' : c ≠ '_') (s : List Char) :
    c ∈ s.map dashless ↔ c ∈ s := by
  simp [dashless_eq_iff hc hc']

theorem isChain_dashless_iff (s : List Char) :
    (s.map dashless).IsChain Yaml.Apart ↔ s.IsChain Yaml.Apart := by
  rw [List.isChain_map]
  simp only [Yaml.Apart, dashless_kinds]
  rfl

theorem atBlank_dashless (s : List Char) : atBlank (s.map dashless) = atBlank s := by
  cases s with
  | nil => rfl
  | cons c s =>
    rw [List.map_cons, atBlank_cons, atBlank_cons, (dashless_kinds c).2.1, (dashless_kinds c).2.2]

theorem atDocumentMark_dashless {s : List Char} (h : atDocumentMark (s.map dashless) = true) :
    atDocumentMark s = true := by
  match s with
  | [] | [_] | [_, _] => simp [atDocumentMark] at h
  | a :: b :: c :: s =>
    have hdash (c : Char) : dashless c ≠ '-' := by
      unfold dashless
      split
      · decide
      · assumption
    have hdot (c : Char) : dashless c = '.' ↔ c = '.' := dashless_eq_iff (by decide) (by decide)
    rw [List.map_cons, List.map_cons, List.map_cons, atDocumentMark_cons, atBlank_dashless] at h
    obtain ⟨⟨rfl, rfl, rfl⟩, hblank⟩ : (a = '.' ∧ b = '.' ∧ c = '.') ∧ atBlank s = true := by
      simpa [hdash, hdot] using h
    exact hblank

theorem holdsMark_dashless {s : List Char} (h : holdsMark (s.map dashless) = true) :
    holdsMark s = true := by
  induction s with
  | nil => exact h
  | cons c s ih =>
    have hquote : s.map dashless ++ ['\''] = (s ++ ['\'']).map dashless := by simp [dashless]
    simp only [List.map_cons, holdsMark, hquote, Bool.or_eq_true, Bool.and_eq_true,
      dashless_kinds] at h ⊢
    exact h.imp (fun hmark => ⟨hmark.1, atDocumentMark_dashless hmark.2⟩) ih

/-- What names and identifiers are between in the settings file of the usual template. -/
theorem toList_settings : Template.Project.settings.toList =
    Settings.spelled nameToken.toList crateToken.toList := by
  rw [Settings.spelled_eq, Template.Project.settings, Text.toList_ofLines,
    Template.nameToken_toList, Template.crateToken_toList]
  decide +kernel

/-- The settings file of a project spells out its name and identifier. -/
theorem forProject_settings (name : String) : forProject name Template.Project.settings =
    Text.encode (String.ofList (Settings.spelled name.toList (crateIdentifier name).toList)) := by
  have hplain : Template.Plain Settings.spelledStart ∧ Template.Plain Settings.spelledMiddle ∧
      Template.Plain Settings.spelledEnd := by
    decide +kernel
  have hquote :
      ∀ p ∈ [(nameToken.toList, name.toList), (crateToken.toList, (crateIdentifier name).toList)],
      p.1 ≠ [] ∧ '\'' ∉ p.1 := by
    rw [Template.nameToken_toList, Template.crateToken_toList]
    simp
  have hself {s : List Char} (h : Template.Plain s) : Text.substitute
      [(nameToken.toList, name.toList), (crateToken.toList, (crateIdentifier name).toList)] s = s :=
    Text.substitute_eq_self (by simpa using h.not_infix)
  have hname : Text.substitute [(nameToken.toList, name.toList),
    (crateToken.toList, (crateIdentifier name).toList)] nameToken.toList = name.toList :=
    Text.substitute_self (by decide) (by simp [Text.startOf])
  have hcrate : Text.substitute [(nameToken.toList, name.toList),
    (crateToken.toList, (crateIdentifier name).toList)]
      crateToken.toList = (crateIdentifier name).toList := by
    have hother : nameToken.toList.isPrefixOf crateToken.toList = false := by
      rw [Template.nameToken_toList, Template.crateToken_toList]
      decide
    exact Text.substitute_self (by decide) (by simp [Text.startOf, hother])
  rw [forProject, toList_settings, Settings.spelled_eq, Text.substitute_append_cons hquote,
    Text.substitute_append_cons hquote,
    Text.substitute_append_cons hquote, Text.substitute_append_cons hquote,
    hself hplain.1, hself hplain.2.1, hself hplain.2.2, hname, hcrate, ← Settings.spelled_eq]

theorem supported_of_create {template : Template}
    (h : create name parent template git w = .ok created w') :
    name ≠ "" ∧ unsupportedIn name = [] := by
  obtain ⟨u, v, hcheck, -⟩ := Work.bind_eq_ok_iff.1 h
  exact (checkName_eq_ok hcheck).2

theorem ne_of_supported {c d : Char} (h : unsupportedIn name = []) (hd : d ∈ unsupported)
    (hc : c ∈ name.toList) : c ≠ d := by
  rintro rfl
  exact unsupportedIn_ne_nil hc hd h

theorem create_bare_name (hne : name ≠ "") (hdot : name ≠ ".") (hup : name ≠ "..")
    (hname : unsupportedIn name = []) (hsize : name.utf8ByteSize ≤ nameLimit) : ∃ created w',
      create name ⟨.root, []⟩ Template.project false Workspace.bare = .ok created w' := by
  have hfit : Fits ([] ++ [name]) := by
    intro n hn
    obtain rfl : n = name := by simpa using hn
    exact ⟨hup, hsize, fun hnul => ne_of_supported hname (by decide) hnul rfl⟩
  have hlimits : nameLimit = 255 ∧ pathLimit = 4096 := ⟨rfl, rfl⟩
  have hshort : Path.spelledSize ([] ++ [name]) + 23 < pathLimit := by
    simp only [List.nil_append, Path.spelledSize_cons, Path.spelledSize_nil]
    omega
  obtain ⟨created, w', h, -⟩ := create_bare hne hdot hname hfit hshort
  exact ⟨created, w', h⟩

theorem length_of_opens {l : Location} (hne : name ≠ "") (hname : unsupportedIn name = [])
    (h : w.Opens (parent / name) l) : name.toList.length ≤ nameLimit := by
  by_cases hdot : name = "."
  · subst hdot
    decide
  · obtain ⟨⟨-, hloc⟩, -⟩ := h
    rw [Path.child_of_not_mem (slash_not_mem hname) hne hdot, locate] at hloc
    split at hloc
    · cases hloc
    · have hsize := walk_fits hloc name (by simp)
      have := (Pieces.utf8ByteSize_between name.toList).1
      rw [String.ofList_toList] at this
      omega

/-- A creation from the usual template leaves the settings file of the project, if no program
writes over it. -/
theorem settings_of_create (hw : w.Sound) (hname : ¬ crateToken.toList <:+: name.toList)
    (hprograms : git = false ∨ w.Writes (· ≠ placeOf w.place (created.path / Failure.settingsFile)))
    (h : create name parent Template.project git w = .ok created w') : w'.cargo = w.cargo ∧
    name.toList.length ≤ nameLimit ∧ ∃ l, w'.Reaches (created.path / Failure.settingsFile) l ∧
      w'.tree.get? l = some (.file (forProject name Template.Project.settings)) := by
  obtain ⟨hne, hsupported⟩ := supported_of_create h
  obtain ⟨hpath, w₁, w₂, w₃, w₄, w₅, files, rewritten, rewritten', started, hmake, hextract,
    hreplace, hreplace', hgit, hb', htree⟩ := create_eq_ok h
  have hbuilt := built_of_steps hw hmake hextract hreplace hreplace'
  have hb₄ := hbuilt.beside
  have hmem : ("prustbowo.yaml", Template.Project.settings) ∈ Template.project.files := by
    simp [Template.project]
  have hnames : Path.namesOf Failure.settingsFile = [Failure.settingsFile] :=
    Path.namesOf_of_not_mem (by decide) (by decide) (by decide)
  have htarget : Template.target created.path Failure.settingsFile =
      created.path / Failure.settingsFile := by
    rw [Path.child_of_not_mem (by decide) (by decide) (by decide), Template.target, hnames]
  have hreach₄ : w₄.Reaches (created.path / Failure.settingsFile) _ :=
    htarget ▸ hbuilt.reaches _ hmem
  have hfile₄ := hbuilt.files Template.project_nodup _ hmem
  rw [stamped_stamped hname hmem] at hfile₄
  have hl := hreach₄.eq
  rw [hb₄.place] at hl
  generalize placeOf w.place created.path ++ Path.namesOf "prustbowo.yaml" = l at *
  have hkeeps : w₄.Keeps (· ≠ l) w₅ := by
    cases git with
    | false =>
      obtain ⟨-, rfl⟩ := EStateM.Result.ok.inj hgit
      exact .refl _ _
    | true =>
      have hwrites : w₄.Writes (· ≠ l) := by
        obtain ⟨t, j, rfl⟩ := hb₄
        rw [hl]
        exact hprograms.resolve_left (by simp)
      exact (Toolchain.still_initGit _ _).keeps_of_ok hwrites hgit
  have hcargo : w'.cargo = w.cargo := by
    obtain ⟨t, j, rfl⟩ := hb'
    obtain ⟨t', j', rfl⟩ := hb₄
    exact hkeeps.cargo
  refine ⟨hcargo, length_of_opens hne hsupported (hpath ▸ hbuilt.opens), l, ⟨hreach₄.1, ?_⟩, ?_⟩
  · rw [hb'.place, hkeeps.place, htree]
    exact hkeeps.tree.locate hreach₄.2
  · rw [htree]
    exact hkeeps.tree.of_not_written hfile₄ (by simp)

theorem load_of_create (hw : w.Sound) (hcargo : w.cargo = none)
    (hname : ¬ crateToken.toList <:+: name.toList)
    (hprograms : git = false ∨ w.Writes (· ≠ placeOf w.place (created.path / Failure.settingsFile)))
    (h : create name parent Template.project git w = .ok created w') :
    Settings.load created.path w' =
      if name.toList.all isAllowed && !holdsMark name.toList then
        .ok { name := String.ofList (unquoted .text name.toList)
              crate := String.ofList (unquoted .text (crateIdentifier name).toList) } w'
      else .error (.yaml .malformed) w' := by
  obtain ⟨hcargo', hlength, l, hreach, hl⟩ := settings_of_create hw hname hprograms h
  obtain ⟨-, hsupported⟩ := supported_of_create h
  have hplain : ∀ c ∈ name.toList, c ≠ '\'' ∧ c ≠ '\r' := fun c hc =>
    ⟨ne_of_supported hsupported (by decide) hc, ne_of_supported hsupported (by decide) hc⟩
  have hcrate : ∀ c ∈ (crateIdentifier name).toList, c ≠ '\'' ∧ c ≠ '\r' := by
    rw [toList_crateIdentifier]
    intro c hc
    constructor <;> rintro rfl
    · exact (hplain _ ((mem_dashless_iff (by decide) (by decide) _).1 hc)).1 rfl
    · exact (hplain _ ((mem_dashless_iff (by decide) (by decide) _).1 hc)).2 rfl
  have hshort : name.toList.length + (crateIdentifier name).toList.length ≤ 1024 := by
    rw [toList_crateIdentifier, List.length_map]
    have : nameLimit = 255 := rfl
    omega
  have hmark : holdsMark (crateIdentifier name).toList = true → holdsMark name.toList = true := by
    rw [toList_crateIdentifier]
    exact holdsMark_dashless
  have hall : (crateIdentifier name).toList.all isAllowed = name.toList.all isAllowed := by
    rw [toList_crateIdentifier, List.all_map]
    exact congrArg name.toList.all (funext fun c => (dashless_kinds c).1)
  rw [Settings.load_of_file (hcargo'.trans hcargo) hreach hl, forProject_settings,
    Settings.ofBytes_spelled _ hplain hcrate hshort hmark, hall, Bool.and_self]
  cases name.toList.all isAllowed && !holdsMark name.toList <;> rfl

/-- Whatever a project is called, reading its settings back gives the name, its identifier and all
defaults if and only if nothing in the name is refused, folded or dropped between single quotes.
Programs may write any other files. -/
theorem load_create_iff (hw : w.Sound) (hcargo : w.cargo = none)
    (hname : ¬ crateToken.toList <:+: name.toList)
    (hprograms : git = false ∨ w.Writes (· ≠ placeOf w.place (created.path / Failure.settingsFile)))
    (h : create name parent Template.project git w = .ok created w') :
    Settings.load created.path w' = .ok { name, crate := crateIdentifier name } w' ↔
    Kept name.toList := by
  obtain ⟨-, hsupported⟩ := supported_of_create h
  have hfeed : '\n' ∉ name.toList := fun hm => ne_of_supported hsupported (by decide) hm rfl
  have hfeed' : '\n' ∉ name.toList.map dashless := fun hm =>
    hfeed ((mem_dashless_iff (by decide) (by decide) _).1 hm)
  rw [load_of_create hw hcargo hname hprograms h, kept_iff]
  constructor
  · intro hload
    split at hload
    · rename_i hread
      obtain ⟨hall, hmark⟩ : name.toList.all isAllowed = true ∧ holdsMark name.toList = false := by
        rwa [Bool.and_eq_true, Bool.not_eq_true'] at hread
      have hsettings := (EStateM.Result.ok.inj hload).1
      have hback : unquoted .text name.toList = name.toList := by
        have := congrArg (String.toList ∘ Settings.name) hsettings
        simpa using this
      obtain ⟨hnext, hapart⟩ := (unquoted_text_eq_iff hfeed).1 hback
      exact ⟨hall, hnext, hapart, hmark⟩
    · cases hload
  · rintro ⟨hall, hnext, hapart, hmark⟩
    have hback : unquoted .text name.toList = name.toList :=
      (unquoted_text_eq_iff hfeed).2 ⟨hnext, hapart⟩
    have hcrate : unquoted .text (crateIdentifier name).toList = (crateIdentifier name).toList := by
      rw [toList_crateIdentifier]
      refine (unquoted_text_eq_iff hfeed').2 ⟨?_, (isChain_dashless_iff _).2 hapart⟩
      rwa [mem_dashless_iff (by decide) (by decide)]
    rw [hall, hmark, Bool.not_false, Bool.and_self, if_pos rfl, hback, hcrate, String.ofList_toList,
      String.ofList_toList]

theorem load_create_iff_shop : ∃ created w',
    create "my-shop" ⟨.root, []⟩ Template.project false Workspace.bare = .ok created w' ∧
    Settings.load created.path w' = .ok { name := "my-shop", crate := "my_shop" } w' := by
  obtain ⟨created, w', h⟩ : ∃ created w',
      create "my-shop" ⟨.root, []⟩ Template.project false Workspace.bare = .ok created w' :=
    create_bare_name (by decide) (by decide) (by decide) (by decide) (by decide)
  have hcrate : crateIdentifier "my-shop" = "my_shop" := by decide
  have hkept : Kept "my-shop".toList := by decide
  exact ⟨created, w', h,
    hcrate ▸ (load_create_iff Workspace.bare_sound rfl (by decide) (.inl rfl) h).2 hkept⟩

/-- A name with a control character makes a project whose settings cannot be read. -/
theorem not_forall_load : ¬ ∀ (name : String) (created : Created) (w' : Workspace),
    create name ⟨.root, []⟩ Template.project false Workspace.bare = .ok created w' →
    ¬ nameToken.toList <:+: name.toList → ¬ crateToken.toList <:+: name.toList →
    Settings.load created.path w' = .ok { name, crate := crateIdentifier name } w' := by
  intro hall
  obtain ⟨created, w', h⟩ : ∃ created w',
      create "a\x01b" ⟨.root, []⟩ Template.project false Workspace.bare = .ok created w' :=
    create_bare_name (by decide) (by decide) (by decide) (by decide) (by decide)
  have hload := load_of_create Workspace.bare_sound rfl (by decide) (.inl rfl) h
  have hrefused : ("a\x01b".toList.all isAllowed && !holdsMark "a\x01b".toList) = false := by decide
  rw [hall "a\x01b" created w' h (by decide) (by decide), hrefused] at hload
  cases hload

end ApiScaffold.Project
