import ApiScaffold.Project
import ApiScaffold.Proofs.Placeholder
import ApiScaffold.Proofs.Template.Usual

/-! Creating a project. Its directory is new; with the usual template and without version control it
holds the module list and the route file as the template has them, and no domain. -/
namespace ApiScaffold.Project
open FileTree Settings
variable {w w' : Workspace} {name : String} {parent : Path} {template : Template}
  {created : Created}

theorem checkName_eq_ok (h : checkName name w = .ok () w') :
    w' = w ∧ name ≠ "" ∧ unsupportedIn name = [] := by
  unfold checkName at h
  split at h
  · cases h
  · rename_i hne
    simp only at h
    split at h
    · cases h
    · rename_i hfound
      exact ⟨(EStateM.Result.ok.inj h).2.symm, hne, by simpa using hfound⟩

theorem create_eq_ok {git : Bool} (h : create name parent template git w = .ok created w') :
    created.path = parent / name ∧ ∃ w₁ w₂ w₃ w₄ w₅ files rewritten rewritten' started,
      Work.makeNewDirectory created.path w = .ok () w₁ ∧
      template.extract created.path w₁ = .ok files w₂ ∧
      Placeholder.replaceBelow created.path nameToken name Work.usualLevels w₂ = .ok rewritten w₃ ∧
      Placeholder.replaceBelow created.path crateToken (crateIdentifier name) Work.usualLevels w₃ =
        .ok rewritten' w₄ ∧
      (if git then Toolchain.initGit created.path (some { name, crate := crateIdentifier name })
        else pure false) w₄ = .ok started w₅ ∧
      w₅.Beside w' ∧ w'.tree = w₅.tree := by
  unfold create at h
  obtain ⟨u, v, hcheck, h₁⟩ := Work.bind_eq_ok_iff.1 h
  obtain ⟨rfl, -, -⟩ := checkName_eq_ok hcheck
  obtain ⟨found, v', hexists, h₂⟩ := Work.bind_eq_ok_iff.1 h₁
  obtain ⟨n, v'', hstatus, hfound⟩ := Work.bind_eq_ok_iff.1 hexists
  obtain ⟨rfl, -⟩ := Work.status_eq_ok hstatus
  obtain ⟨rfl, rfl⟩ := EStateM.Result.ok.inj hfound
  split at h₂
  · cases h₂
  obtain ⟨u₁, w₁, hmake, h₃⟩ := Work.bind_eq_ok_iff.1 h₂
  obtain ⟨files, w₂, hextract, h₄⟩ := Work.bind_eq_ok_iff.1 h₃
  obtain ⟨u₃, w₃, hreplace, h₅⟩ := Work.bind_eq_ok_iff.1 h₄
  obtain ⟨u₄, w₄, hreplace', h₆⟩ := Work.bind_eq_ok_iff.1 h₅
  obtain ⟨started, w₅, hgit, h₇⟩ : ∃ started w₅,
      (if git then Toolchain.initGit (parent / name) (some { name, crate := crateIdentifier name })
        else pure false) w₄ = .ok started w₅ ∧
      (do Work.note .info .project s!"Created project {parent / name} ({files.length} files)"
          return ⟨parent / name, crateIdentifier name, files.length, started⟩ : Work Created) w₅ =
              .ok created w' := by
    cases git <;> exact Work.bind_eq_ok_iff.1 h₆
  obtain ⟨u₆, w₆, hnote, h₈⟩ := Work.bind_eq_ok_iff.1 h₇
  obtain ⟨rewritten, hreplace⟩ := Work.discard_eq_ok_iff.1 hreplace
  obtain ⟨rewritten', hreplace'⟩ := Work.discard_eq_ok_iff.1 hreplace'
  obtain ⟨rfl, rfl⟩ := EStateM.Result.ok.inj h₈
  rw [Work.note_run] at hnote
  obtain ⟨-, rfl⟩ := EStateM.Result.ok.inj hnote
  exact ⟨rfl, w₁, w₂, w₃, w₄, w₅, files, rewritten, rewritten', started, hmake, hextract, hreplace,
    hreplace', hgit, ⟨_, _, rfl⟩, rfl⟩

structure New (w : Workspace) (path : Path) (root : Location) : Prop where
  sound : w.Sound
  domains : w.Opens ⟨path.base, path.names ++ rootNames⟩ (root ++ rootNames)
  list : w.tree.get? (root ++ listNames) = some (.file (Text.encode Template.Project.modules))
  routes : w.tree.get? (root ++ routeNames) = some (.file (Text.encode Template.Project.routes))
  free : ∀ x, x ≠ "mod.rs" → w.tree.get? (root ++ rootNames ++ [x]) = none

/-- A new directory is made where nothing was, and nothing is in it. Only directories on the way to
it are new besides. -/
theorem makeNewDirectory_empty (hw : w.Sound)
    {p : Path} (h : Work.makeNewDirectory p w = .ok () w') : w.Beside w' ∧
    w'.Sound ∧ w'.Opens p (placeOf w.place p) ∧ w.tree.get? (placeOf w.place p) = none ∧
      (∀ r, r ≠ [] → w'.tree.get? (placeOf w.place p ++ r) = none) ∧
      Grows (Work.Way w' p) (fun _ => False) w.tree w'.tree := by
  obtain ⟨w₁, l, t, hb, hg, hr, ht, rfl⟩ := Work.makeNewDirectory_eq_ok h
  have hl : l = placeOf w.place p := by rw [hr.eq, hb.place]
  have hplace : Fits w₁.place := hb.place ▸ hw.place
  have hnone : w₁.tree.get? l = none := by
    by_contra hn
    simp [makeDirectoryAt, hn] at ht
  have hbeside : w₁.Beside { w₁ with tree := t } := ⟨t, _, rfl⟩
  have hopens := Work.opens_of_makeDirectoryAt hr ht
  have hgrows : Grows (Work.Way { w₁ with tree := t } p) (fun _ => False) w.tree t := by
    refine (hg.mono (fun k hk _ => hk.grows hbeside (grows_of_makeDirectoryAt ht)) (fun _ h _ =>
      h)).trans ((grows_of_makeDirectoryAt ht).mono (fun k hk _ => ?_) (fun _ h _ => h))
    obtain rfl := hk
    exact ⟨p.names, List.prefix_rfl, hopens.1⟩
  rw [← hl]
  refine ⟨hb.trans hbeside, ?_, hopens, ?_, fun r hne => ?_, hgrows⟩
  · exact hw.grows (hb.trans hbeside)
      (hgrows.mono (fun k hk _ => hk.fits hplace) (fun _ h _ => h.elim))
  · rcases hg l with he | ⟨-, hn, -⟩ | ⟨hno, -⟩
    · rw [← he, hnone]
    · exact hn
    · exact hno.elim
  · rw [get?_of_makeDirectoryAt ht, if_neg (by simpa using hne)]
    exact get?_append_of_ne hne (by simp [hnone])

/-- Both tokens give way below a directory, one after the other, and nothing else changes. -/
theorem tokens_replaced {path : Path} {root : Location} {crate : String} {w₁ w₂ : Workspace}
    {rewritten rewritten' : List Path} (hw : w.Sound) (hopens : w.Opens path root)
    (hname : Placeholder.replaceBelow path nameToken name Work.usualLevels w = .ok rewritten w₁)
    (hcrate : Placeholder.replaceBelow path crateToken crate Work.usualLevels w₁ =
      .ok rewritten' w₂) :
    w.Beside w₂ ∧ w₂.Sound ∧
      Grows (fun _ => False) (fun k => Fits k ∧ Placeholder.Below root k) w.tree w₂.tree ∧
      (∀ r, r ≠ [] → w₂.tree.get? (root ++ r) = ((w.tree.get? (root ++ r)).map
        (Placeholder.stampedNode nameToken name)).map (Placeholder.stampedNode crateToken crate)) ∧
      ∀ k, ¬ Placeholder.Below root k → w₂.tree.get? k = w.tree.get? k := by
  obtain ⟨-, hb₁, hin₁, hout₁⟩ := Placeholder.replaceBelow_eq_ok hw hopens hname
  have hg₁ := Placeholder.grows_of_replaceBelow hw hopens hname
  have hw₁ := Placeholder.sound_of_replaceBelow hw hopens hname
  have hopens₁ := hopens.grows hb₁ hg₁
  obtain ⟨-, hb₂, hin₂, hout₂⟩ := Placeholder.replaceBelow_eq_ok hw₁ hopens₁ hcrate
  refine ⟨hb₁.trans hb₂, Placeholder.sound_of_replaceBelow hw₁ hopens₁ hcrate,
    hg₁.trans (Placeholder.grows_of_replaceBelow hw₁ hopens₁ hcrate),
    fun r hr => ?_, fun k hk => ?_⟩
  · rw [hin₂ _ ⟨r, hr, rfl⟩, hin₁ _ ⟨r, hr, rfl⟩]
  · rw [hout₂ k hk, hout₁ k hk]

/-- What the steps of a creation leave: a new directory with the files of the template, in which the
tokens have given way one after the other, and nothing but those and the directories for them.
Elsewhere only directories on the way to it are new. -/
structure Built (name crate : String) (template : Template) (path : Path)
    (w w' : Workspace) : Prop where
  beside : w.Beside w'
  sound : w'.Sound
  fresh : w.tree.get? (placeOf w.place path) = none
  opens : w'.Opens path (placeOf w.place path)
  reaches : ∀ f ∈ template.files,
    w'.Reaches (Template.target path f.1) (placeOf w.place path ++ Path.namesOf f.1)
  files : (template.files.map fun f => Path.namesOf f.1).Nodup → ∀ f ∈ template.files, w'.tree.get?
    (placeOf w.place path ++ Path.namesOf f.1) = some (.file (Placeholder.stamped crateToken crate
      (Placeholder.stamped nameToken name (Text.encode f.2))))
  free : ∀ r, r ≠ [] →
    ¬ Template.OnTheWay (placeOf w.place path) template.files (placeOf w.place path ++ r) →
    ¬ Template.Target (placeOf w.place path) template.files (placeOf w.place path ++ r) →
    w'.tree.get? (placeOf w.place path ++ r) = none
  around : ∀ k, ¬ placeOf w.place path <+: k → w'.tree.get? k = w.tree.get? k ∨
    w.tree.get? k = none ∧ w'.tree.get? k = some .directory ∧
      ∃ names, names <+: path.names ∧ k = placeOf w.place ⟨path.base, names⟩

theorem built_of_steps {path : Path} {crate : String} {w₁ w₂ w₃ w₄ : Workspace}
    {files rewritten rewritten' : List Path} (hw : w.Sound)
    (hmake : Work.makeNewDirectory path w = .ok () w₁)
    (hextract : template.extract path w₁ = .ok files w₂)
    (hname : Placeholder.replaceBelow path nameToken name Work.usualLevels w₂ = .ok rewritten w₃)
    (hcrate : Placeholder.replaceBelow path crateToken crate Work.usualLevels w₃ =
      .ok rewritten' w₄) : Built name crate template path w w₄ := by
  obtain ⟨hb₁, hw₁, hopens₁, hnone, hempty, hg₁⟩ := makeNewDirectory_empty hw hmake
  obtain ⟨-, hb₂, hg₂, hreach₂, hget₂⟩ := Template.extract_eq_ok hopens₁ hw₁.place hextract
  have hw₂ := Template.sound_of_extract hw₁ hopens₁ hextract
  have hopens₂ := hopens₁.grows hb₂ hg₂
  obtain ⟨hb₄, hw₄, hg₄, hin₄, hout₄⟩ := tokens_replaced hw₂ hopens₂ hname hcrate
  refine ⟨(hb₁.trans hb₂).trans hb₄, hw₄, hnone,
    hopens₂.grows hb₄ hg₄, fun f hf => (hreach₂ f hf).grows hb₄ hg₄,
    fun hnodup f hf => ?_, fun r hr hway htarget => ?_, fun k hk => ?_⟩
  · have hfile := hget₂ hnodup f hf
    have hne : Path.namesOf f.1 ≠ [] := by
      intro hnil
      rw [hnil, List.append_nil, hopens₂.2] at hfile
      cases hfile
    rw [hin₄ _ hne, hfile]
    rfl
  · rw [hin₄ r hr, hg₂.eq_of_not (fun h => hway h.2) (fun h => htarget h.2), hempty r hr]
    rfl
  · have hbelow : ¬ Placeholder.Below (placeOf w.place path) k := by
      rintro ⟨r, -, rfl⟩
      exact hk (List.prefix_append _ _)
    have hextracted : w₂.tree.get? k = w₁.tree.get? k := by
      refine hg₂.eq_of_not ?_ ?_
      · rintro ⟨-, f, -, ns, -, -, rfl⟩
        exact hk (List.prefix_append _ _)
      · rintro ⟨-, f, -, -, rfl⟩
        exact hk (List.prefix_append _ _)
    rw [hout₄ k hbelow, hextracted]
    rcases hg₁ k with he | ⟨⟨names, hnames, hreach⟩, hfree, hdir⟩ | ⟨hno, -⟩
    · exact .inl he
    · exact .inr ⟨hfree, hdir, names, hnames, hb₁.place ▸ hreach.eq⟩
    · exact hno.elim

/-- A creation that ends well makes a directory where nothing was. In it are the files of the
template, as they are where they have none of the tokens, and nothing but those and the
directories for them. -/
theorem tree_of_create (hw : w.Sound) (h : create name parent template false w = .ok created w') :
    created.path = parent / name ∧ w.Beside w' ∧
    w'.Sound ∧ w.tree.get? (placeOf w.place created.path) = none ∧
      (∀ f ∈ template.files, w'.Reaches (Template.target created.path f.1)
        (placeOf w.place created.path ++ Path.namesOf f.1)) ∧
      ((template.files.map fun f => Path.namesOf f.1).Nodup → ∀ f ∈ template.files,
        ¬ nameToken.toList <:+: f.2.toList → ¬ crateToken.toList <:+: f.2.toList → w'.tree.get?
          (placeOf w.place created.path ++ Path.namesOf f.1) = some (.file (Text.encode f.2))) ∧
      ∀ r, r ≠ [] → ¬ Template.OnTheWay (placeOf w.place created.path) template.files
        (placeOf w.place created.path ++ r) → ¬ Template.Target
        (placeOf w.place created.path) template.files (placeOf w.place created.path ++ r) →
        w'.tree.get? (placeOf w.place created.path ++ r) = none := by
  obtain ⟨hpath, w₁, w₂, w₃, w₄, w₅, files, rewritten, rewritten', started, hmake, hextract, hname,
    hcrate, hgit, hb₅, htree⟩ := create_eq_ok h
  obtain ⟨-, rfl⟩ := EStateM.Result.ok.inj hgit
  have hbuilt := built_of_steps hw hmake hextract hname hcrate
  have hg₅ : Grows (fun _ => False) (fun _ => False) w₄.tree w'.tree :=
    fun k => .inl (by rw [htree])
  refine ⟨hpath, hbuilt.beside.trans hb₅, ?_,
    hbuilt.fresh, fun f hf => (hbuilt.reaches f hf).grows hb₅ hg₅,
    fun hnodup f hf hn hc => ?_, fun r hr hway htarget => ?_⟩
  · exact hbuilt.sound.grows hb₅ (hg₅.mono (fun _ h _ => h.elim) (fun _ h _ => h.elim))
  · rw [htree, hbuilt.files hnodup f hf, Placeholder.stamped_of_not_infix _ hn,
      Placeholder.stamped_of_not_infix _ hc]
  · rw [htree]
    exact hbuilt.free r hr hway htarget

theorem new_of_create (hw : w.Sound)
    (h : create name parent Template.project false w = .ok created w') :
    created.path = parent / name ∧ w.Beside w' ∧ w.tree.get? (placeOf w.place created.path) = none ∧
      New w' created.path (placeOf w.place created.path) := by
  obtain ⟨hpath, hb, hw', hnone, hreach, hfile, hfree⟩ := tree_of_create hw h
  generalize hroot : placeOf w.place created.path = root at *
  have hfile := hfile Template.project_nodup
  obtain ⟨hlist, hlistNames, hlistTokens⟩ := Template.project_modules
  obtain ⟨hroutes, hrouteNames, hrouteTokens⟩ := Template.project_routes
  refine ⟨hpath, hb, hnone, hw', ?_, ?_, ?_, fun x hx => ?_⟩
  · have hmods : rootNames ++ ["mod.rs"] = Path.namesOf "src/app/domain/mod.rs" := hlistNames.symm
    have hopens : ∃ d, w'.Opens ⟨created.path.base, created.path.names ++ rootNames⟩ d := by
      have hbelow := hreach _ hlist
      rw [Template.target, ← hmods, ← List.append_assoc] at hbelow
      exact hbelow.opens_above (by simp)
    obtain ⟨d, hopens⟩ := hopens
    have hd : d = root ++ rootNames := by
      rw [hopens.1.eq, placeOf_append (by decide), hb.place, ← hroot]
    exact hd ▸ hopens
  · rw [← hlistNames]
    exact hfile (_, Template.Project.modules) hlist hlistTokens.1 hlistTokens.2
  · rw [← hrouteNames]
    exact hfile (_, Template.Project.routes) hroutes hrouteTokens.1 hrouteTokens.2
  · rw [List.append_assoc]
    refine hfree _ (by simp) ?_ ?_
    · rintro ⟨f, hf, ns, hns, -, he⟩
      obtain rfl := List.append_cancel_left he
      have hway := Template.projectWays_domain _ (Template.mem_projectWays hf)
        (((List.prefix_append _ _).trans hns).trans (List.dropLast_prefix _))
      rw [hway] at hns
      have := hns.length_le
      simp [rootNames, listNames] at this
    · rintro ⟨f, hf, -, he⟩
      have hx' := List.append_cancel_left he
      have hway :=
        Template.projectWays_domain _ (Template.mem_projectWays hf) (hx' ▸ List.prefix_append _ _)
      rw [hway] at hx'
      exact hx (by simpa [rootNames, listNames] using hx')

theorem slash_not_mem (h : unsupportedIn name = []) : '/' ∉ name.toList := by
  unfold unsupportedIn at h
  rw [List.filter_eq_nil_iff] at h
  simpa using h '/' (by decide)

theorem replaceBelow_run {root : Location} (token value : String)
    (htoken : token ≠ "") (hw : w.Sound) {p : Path}
    (hopens : w.Opens p root) (hnear : ∀ r n, w.tree.get? (root ++ r) = some n → Work.Near p r) :
    ∃ rewritten w', Placeholder.replaceBelow p token value Work.usualLevels w = .ok rewritten w' ∧
      w'.Sound ∧ w'.Opens p root ∧ ∀ r n, w'.tree.get? (root ++ r) = some n → Work.Near p r := by
  obtain ⟨rewritten, w₁, h⟩ := Placeholder.replaceBelow_run htoken value hw hopens hnear
  obtain ⟨-, hb, hin, -⟩ := Placeholder.replaceBelow_eq_ok hw hopens h
  have hg := Placeholder.grows_of_replaceBelow hw hopens h
  refine ⟨rewritten, w₁, h, Placeholder.sound_of_replaceBelow hw hopens h, hopens.grows hb hg,
    fun r n hr => ?_⟩
  by_cases hne : r = []
  · rw [hne]
    exact Work.near_nil hopens.1.short
  · rw [hin _ ⟨r, hne, rfl⟩] at hr
    obtain ⟨old, hold, -⟩ := Option.map_eq_some_iff.1 hr
    exact hnear r old hold

theorem checkName_of_supported (hne : name ≠ "") (hname : unsupportedIn name = []) :
    checkName name w = .ok () w := by
  unfold checkName
  rw [if_neg hne]
  change (if unsupportedIn name ≠ [] then throw (.unsupportedName name (unsupportedIn name))
    else pure () : Work Unit) w = _
  rw [if_neg (by simp [hname])]
  rfl

/-- What it takes to create a project from the usual template below a directory: a name that a
project can have, a way of short names that no file is on, and nothing at its end. -/
theorem create_run {p : Path} {d : Location} {above : List String}
    (hw : w.Sound) (hd : w.Opens p d) (hne : name ≠ "")
    (hdot : name ≠ ".") (hname : unsupportedIn name = []) (hfit : Fits (above ++ [name]))
    (hsize : p.text.utf8ByteSize + Path.spelledSize (above ++ [name]) + 22 < pathLimit)
    (hfree : ∀ ms, ms <+: above → ∀ content, w.tree.get? (d ++ ms) ≠ some (.file content))
    (hnone : w.tree.get? (d ++ (above ++ [name])) = none) : ∃ created w',
      create name ⟨p.base, p.names ++ above⟩ Template.project false w = .ok created w' := by
  have hslash := slash_not_mem hname
  have hpath : (⟨p.base, p.names ++ above⟩ : Path) / name = ⟨p.base,
    p.names ++ (above ++ [name])⟩ := by
    rw [Path.child_of_not_mem hslash hne hdot, List.append_assoc]
  have hshort : (⟨p.base, p.names ++ (above ++ [name])⟩ : Path).text.utf8ByteSize + 22 <
      pathLimit := by
    have := Path.utf8ByteSize_text_append p.base p.names (above ++ [name])
    have hp : (⟨p.base, p.names⟩ : Path) = p := rfl
    rw [hp] at this
    omega
  have hcheck := checkName_of_supported (w := w) hne hname
  have hexists := Work.fileExists_of_free hd hfit (by omega) hfree hnone
  obtain ⟨w₁, hw₁⟩ := Work.makeNewDirectory_below hd hfit (by omega) hfree hnone
  obtain ⟨hb₁, hs₁, hopens₁, -, hempty, -⟩ := makeNewDirectory_empty hw hw₁
  generalize placeOf w.place ⟨p.base, p.names ++ (above ++ [name])⟩ = root at *
  have hroom := Template.room_project hopens₁.2 hempty hshort
  obtain ⟨files, w₂, hw₂⟩ := Template.extract_run hopens₁ hs₁.place hroom
  obtain ⟨-, hb₂, hg₂, -, -⟩ := Template.extract_eq_ok hopens₁ hs₁.place hw₂
  have hs₂ := Template.sound_of_extract hs₁ hopens₁ hw₂
  have hentries : ∀ r n, w₁.tree.get? (root ++ r) = some n →
      Work.Near ⟨p.base, p.names ++ (above ++ [name])⟩ r := by
    intro r n hr
    by_cases hne : r = []
    · rw [hne]
      exact Work.near_nil hopens₁.1.short
    · rw [hempty r hne] at hr
      cases hr
  have hfiles : ∀ f ∈ Template.project.files,
      Work.Near ⟨p.base, p.names ++ (above ++ [name])⟩ (Path.namesOf f.1) :=
    fun f hf => ⟨hroom.short f hf, Template.projectWays_shallow _ (Template.mem_projectWays hf)⟩
  obtain ⟨rewritten₃, w₃, hw₃, hs₃, hopens₃, hnear₃⟩ :=
    replaceBelow_run nameToken name (by decide) hs₂
    (hopens₁.grows hb₂ hg₂) (Template.near_of_grows hentries hfiles hg₂)
  obtain ⟨rewritten₄, w₄, hw₄, -⟩ :=
    replaceBelow_run crateToken (crateIdentifier name) (by decide) hs₃ hopens₃ hnear₃
  refine Work.bind_run hcheck ?_
  rw [hpath]
  exact Work.bind_run hexists
    (Work.bind_run hw₁ (Work.bind_run hw₂ (Work.bind_run (Work.discard_of_ok hw₃)
    (Work.bind_run (Work.discard_of_ok hw₄) ⟨_, _, rfl⟩))))

theorem create_bare {above : List String} (hne : name ≠ "")
    (hdot : name ≠ ".") (hname : unsupportedIn name = [])
    (hfit : Fits (above ++ [name])) (hsize : Path.spelledSize (above ++ [name]) + 23 < pathLimit) :
    ∃ created w', create name ⟨.root, above⟩ Template.project false Workspace.bare =
      .ok created w' ∧ created.path = ⟨.root, above ++ [name]⟩ := by
  have hroot : (⟨.root, []⟩ : Path).text.utf8ByteSize = 1 := by decide
  have hnone : Workspace.bare.tree.get? ([] ++ (above ++ [name])) = none := get?_empty (by simp)
  obtain ⟨created, w', h⟩ :=
    create_run Workspace.bare_sound Workspace.bare_opens hne hdot hname hfit (by omega)
    (fun ms _ => Workspace.get?_bare_ne_file ([] ++ ms)) hnone
  refine ⟨created, w', h, ?_⟩
  rw [(create_eq_ok h).1, Path.child_of_not_mem (slash_not_mem hname) hne hdot]
  rfl

end ApiScaffold.Project
