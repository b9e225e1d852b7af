import ApiScaffold.Proofs.Domain.Grown

/-! The territory of a domain: its own directory in the domain root, the route file and the module
list. Creating a domain should change nothing else and keep the lines of the module list. It does so
for just the names that lead to a place in the domain root. -/
namespace ApiScaffold.Domain
open FileTree Settings
variable {w w' : Workspace} {name : String} {project : Path} {template : Template}
  {given : Option Settings} {created : Created}

/-- Places that a creation may write to: those of the domain's directory, the route file and
the module list. -/
def Territory (project d l : Location) : Prop :=
  d <+: l ∨ l = project ++ routeNames ∨ l = project ++ listNames

/-- A creation keeps to its territory: the domain has a directory of its own in the domain root, all
changes are new directories or in the territory, and the module list keeps its lines. -/
structure InTerritory (w w' : Workspace) (project d : Location) : Prop where
  immediate : ∃ x, d = project ++ rootNames ++ [x]
  directory : w'.tree.get? d = some .directory
  changes : ∀ l, w'.tree.get? l = w.tree.get? l ∨ w.tree.get? l = none ∧
    w'.tree.get? l = some .directory ∨ Territory project d l
  lines : ∀ s, w.tree.get? (project ++ listNames) = some (.file (Text.encode s)) →
    ∃ t, w'.tree.get? (project ++ listNames) = some (.file (Text.encode t)) ∧
      ∀ line ∈ Text.lines s.toList, line ∈ Text.lines t.toList

/-- Where the name of a domain leads from the domain root. -/
theorem placeOf_domain (place root : Location) (hroot : ".." ∉ root) (name : String) :
    placeOf place ((⟨.root, root⟩ : Path) / name) =
      Path.follow (if (Path.ofString name).isAbsolute then [] else root) (Path.namesOf name) := by
  change placeOf place (Path.join ⟨.root, root⟩ (Path.ofString name)) = _
  rw [Path.join]
  split
  · rename_i h
    rw [placeOf_eq, if_pos h]
    rfl
  · rw [placeOf_eq]
    change Path.follow [] (root ++ Path.namesOf name) = _
    rw [Path.follow_append, Path.follow_of_not_mem hroot, List.nil_append]

theorem grows_of_steps {w₁ w₂ w₃ : Workspace} {path : Path}
    {files rewritten : List Path} (hw : w.Sound) (hmake : Work.ensureDirectory path w = .ok () w₁)
    (hextract : template.extract path w₁ = .ok files w₂)
    (hreplace : Placeholder.replaceBelow path nameToken name Work.usualLevels w₂ =
      .ok rewritten w₃) :
    w.Beside w₃ ∧ w₃.tree.get? (placeOf w.place path) = some .directory ∧
      Grows Fits (fun l => Fits l ∧ Placeholder.Below (placeOf w.place path) l) w.tree w₃.tree := by
  obtain ⟨hb₁, ⟨d, hopens⟩, hg₁⟩ := Work.ensureDirectory_eq_ok hmake
  obtain rfl : d = placeOf w.place path := by rw [hopens.1.eq, hb₁.place]
  have hmade : Grows Fits (fun _ => False) w.tree w₁.tree :=
    hg₁.mono (fun k hk _ => hk.fits (hb₁.place ▸ hw.place)) (fun _ h _ => h)
  have hw₁ : w₁.Sound := hw.grows hb₁ (hmade.mono (fun _ h _ => h) (fun _ h _ => h.elim))
  obtain ⟨-, hb₂, hg₂, -⟩ := Template.extract_eq_ok hopens hw₁.place hextract
  have hw₂ := Template.sound_of_extract hw₁ hopens hextract
  have hopens₂ := hopens.grows hb₂ hg₂
  have hb₃ := (Placeholder.replaceBelow_eq_ok hw₂ hopens₂ hreplace).2.1
  have hg₃ := Placeholder.grows_of_replaceBelow hw₂ hopens₂ hreplace
  refine ⟨(hb₁.trans hb₂).trans hb₃, hg₃.directory hopens₂.2, ?_⟩
  refine (hmade.mono (fun _ h _ => h) (fun _ h _ => h.elim)).trans
    ((hg₂.mono (fun _ h _ => h.1) ?_).trans (hg₃.mono (fun _ h _ => h.elim) (fun _ h _ => h)))
  rintro k ⟨hfit, f, -, hne, rfl⟩ -
  exact ⟨hfit, _, hne, rfl⟩

/-- Before the module list is written, files change below the directory of the domain only, and in
the route file. -/
theorem create_until_list (hw : w.Sound)
    (hlayout : ∀ s, Settings.orLoad given (project.absolute w.place) w = .ok s w → s.layout = {})
    (h : create name project template given w = .ok created w') :
    created.path = (⟨.root, placeOf w.place project ++ rootNames⟩ : Path) / name ∧
    ∃ w₁ w₂, w.Beside w₁ ∧ w₁.tree.get? (placeOf w.place created.path) = some .directory ∧
      Grows Fits (fun l => Fits l ∧ (Placeholder.Below (placeOf w.place created.path) l ∨
        l = placeOf w.place project ++ routeNames)) w.tree w₁.tree ∧
      ModuleList.registerIn ⟨.root, placeOf w.place project ++ listNames⟩ name w₁ =
        .ok created.moduleAdded w₂ ∧ w₂.Beside w' ∧ w'.tree = w₂.tree := by
  obtain ⟨-, settings, w₁, w₂, w₃, w₄, w₅, files, rewritten, text, hload, hpath, hmake, hextract,
    hreplace, hroute, hlist, hb₅, htree⟩ := create_eq_ok h
  have hl := hlayout settings hload
  rw [domainRoot_eq hl] at hpath
  rw [moduleList_eq hl] at hlist
  rw [routeFile_eq hl] at hroute
  obtain ⟨hb₃, hdir, hg₃⟩ := grows_of_steps hw hmake hextract hreplace
  obtain ⟨hb₄, hg₄⟩ := Route.grows_of_registerIn (hb₃.place ▸ hw.place) hroute
  refine ⟨hpath, w₄, w₅, hb₃.trans hb₄, hg₄.directory hdir, ?_, hlist, hb₅, htree⟩
  refine (hg₃.mono (fun _ h _ => h) ?_).trans (hg₄.mono (fun _ h _ => h.elim) ?_)
  · rintro k ⟨hfit, hk⟩ -
    exact ⟨hfit, .inl hk⟩
  · rintro k ⟨hfit, hk⟩ -
    exact ⟨hfit, .inr (hk.trans (placeOf_below hw.place.not_mem project routeNames_fits.not_mem _))⟩

theorem list_ne_below {root d r : Location} (hd : ∃ x, d = root ++ rootNames ++ [x]) (hr : r ≠ []) :
    root ++ listNames ≠ d ++ r := by
  obtain ⟨x, rfl⟩ := hd
  intro he
  rw [List.append_assoc, List.append_assoc] at he
  have hlen := congrArg List.length (List.append_cancel_left he)
  have hpos := List.length_pos_iff.2 hr
  simp only [rootNames, listNames, List.length_append, List.length_cons, List.length_nil] at hlen
  omega

/-- Creating a domain keeps to its territory if the name leads to a place in the domain root. -/
theorem inTerritory_of_immediate (hw : w.Sound)
    (hlayout : ∀ s, Settings.orLoad given (project.absolute w.place) w = .ok s w → s.layout = {})
    (h : create name project template given w = .ok created w') :
    (∀ l, w'.tree.get? l = w.tree.get? l ∨ w.tree.get? l = none ∧ w'.tree.get? l = some .directory ∨
      Territory (placeOf w.place project) (placeOf w.place created.path) l) ∧
    ((∃ x, placeOf w.place created.path = placeOf w.place project ++ rootNames ++ [x]) →
      InTerritory w w' (placeOf w.place project) (placeOf w.place created.path)) := by
  obtain ⟨-, w₁, w₂, hb₁, hdir, hg₁, hlist, hb₂, htree⟩ := create_until_list hw hlayout h
  have hlistAt := placeOf_below hw.place.not_mem project listNames_fits.not_mem w₁.place
  obtain ⟨-, hg₂⟩ := ModuleList.grows_of_registerIn (hb₁.place ▸ hw.place) hlist
  rw [hlistAt] at hg₂
  have hchanges : ∀ l, w'.tree.get? l = w.tree.get? l ∨
      w.tree.get? l = none ∧ w'.tree.get? l = some .directory ∨
      Territory (placeOf w.place project) (placeOf w.place created.path) l := by
    have hall : Grows Fits (Territory (placeOf w.place project) (placeOf w.place created.path))
        w.tree w'.tree := by
      rw [htree]
      refine (hg₁.mono (fun _ h _ => h) ?_).trans (hg₂.mono (fun _ h _ => h.elim) ?_)
      · rintro k ⟨-, ⟨r, -, rfl⟩ | hk⟩ -
        · exact .inl (List.prefix_append _ _)
        · exact .inr (.inl hk)
      · rintro k ⟨-, hk⟩ -
        exact .inr (.inr hk)
    intro l
    rcases hall l with he | ⟨-, hnew⟩ | ⟨hl, -⟩
    · exact .inl he
    · exact .inr (.inl hnew)
    · exact .inr (.inr hl)
  refine ⟨hchanges, fun hx => ⟨hx, ?_, hchanges, fun s hs => ?_⟩⟩
  · rw [htree]
    exact hg₂.directory hdir
  · have hkept : w₁.tree.get? (placeOf w.place project ++ listNames) =
        some (.file (Text.encode s)) := by
      refine hg₁.of_not_written hs ?_
      rintro ⟨-, ⟨r, hr, he⟩ | he⟩
      · exact list_ne_below hx hr he
      · exact absurd (List.append_cancel_left he) (by decide)
    obtain ⟨t, ht, hpre⟩ := ModuleList.lines_kept hkept hlistAt.symm hlist
    exact ⟨t, by rw [htree]; exact ht, fun line hline => hpre.mem hline⟩

theorem follow_word {root : Location} (hne : name ≠ "") (hs : '/' ∉ name.toList) :
    Path.follow (if (Path.ofString name).isAbsolute then [] else root) (Path.namesOf name) =
      if name = "." then root else if name = ".." then root.dropLast else root ++ [name] := by
  by_cases hdot : name = "."
  · subst hdot
    have hn : Path.namesOf "." = [] := by decide
    have ha : (Path.ofString ".").isAbsolute = false := by decide
    rw [hn, ha]
    rfl
  · rw [if_neg hdot, Path.ofString_of_not_mem hs hne hdot, Path.namesOf_of_not_mem hs hne hdot]
    rfl

/-- Where creating a domain keeps to its territory. A creation that ends well changes files in the
domain's directory, wherever that is, in the route file and in the module list only. It keeps to the
territory if and only if the name leads from the domain root to a place in it; of names without
slashes only the two that lead nowhere or back do not. -/
theorem create_inTerritory_iff (hw : w.Sound)
    (hlayout : ∀ s, Settings.orLoad given (project.absolute w.place) w = .ok s w → s.layout = {})
    (h : create name project template given w = .ok created w') :
    placeOf w.place created.path =
        Path.follow (if (Path.ofString name).isAbsolute then []
          else placeOf w.place project ++ rootNames) (Path.namesOf name) ∧
      (∀ l, w'.tree.get? l = w.tree.get? l ∨
        w.tree.get? l = none ∧ w'.tree.get? l = some .directory ∨
        Territory (placeOf w.place project) (placeOf w.place created.path) l) ∧
      (InTerritory w w' (placeOf w.place project) (placeOf w.place created.path) ↔
        ∃ x, placeOf w.place created.path = placeOf w.place project ++ rootNames ++ [x]) ∧
      ('/' ∉ name.toList →
        (InTerritory w w' (placeOf w.place project) (placeOf w.place created.path) ↔
          name ≠ "." ∧ name ≠ "..")) := by
  have hup : ".." ∉ placeOf w.place project :=
    Path.not_mem_follow (by split <;> simp [hw.place.not_mem]) _
  have hroot : ".." ∉ placeOf w.place project ++ rootNames := by
    rw [List.mem_append, not_or]
    exact ⟨hup, by decide⟩
  obtain ⟨hpath, -⟩ := create_until_list hw hlayout h
  have hplace := placeOf_domain w.place _ hroot name
  rw [← hpath] at hplace
  obtain ⟨hchanges, himmediate⟩ := inTerritory_of_immediate hw hlayout h
  have hiff : InTerritory w w' (placeOf w.place project) (placeOf w.place created.path) ↔
      ∃ x, placeOf w.place created.path = placeOf w.place project ++ rootNames ++ [x] :=
    ⟨fun hin => hin.immediate, himmediate⟩
  refine ⟨hplace, hchanges, hiff, fun hs => ?_⟩
  rw [hiff, hplace, follow_word (create_eq_ok h).1 hs]
  constructor
  · rintro ⟨x, hx⟩
    constructor
    · rintro rfl
      have hlen := congrArg List.length hx
      simp at hlen
    · rintro rfl
      have hlen := congrArg List.length hx
      simp at hlen
      omega
  · rintro ⟨hdot, hback⟩
    exact ⟨name, by rw [if_neg hdot, if_neg hback]⟩

theorem exists_grown : ∃ w : Workspace, w.place = [] ∧ Grown w ["shop"] [] := by
  have hfit : Fits ([] ++ ["shop"]) := by decide
  obtain ⟨made, w, hmade, hpath⟩ :=
    Project.create_bare (by decide) (by decide) (by decide) hfit (by decide)
  obtain ⟨-, hb, -, hnew⟩ := Project.new_of_create Workspace.bare_sound hmade
  rw [hpath, placeOf_root hfit.not_mem] at hnew
  exact ⟨w, hb.place, grown_of_new hnew⟩

theorem create_inTerritory_iff_users : ∃ w w' created,
    w.Sound ∧ create "users" ⟨.root, ["shop"]⟩ Template.domain (some {}) w = .ok created w' ∧
    placeOf w.place created.path = ["shop", "src", "app", "domain", "users"] ∧
    InTerritory w w' ["shop"] ["shop", "src", "app", "domain", "users"] := by
  obtain ⟨w, hplace, h⟩ := exists_grown
  have hn : Named "users" := .of_letters (by decide) (by decide) (by simp)
  have hp : placeOf w.place ⟨.root, ["shop"]⟩ = ["shop"] := placeOf_root (by decide) _
  have hshort : (handlerPath ["shop"] "users").text.utf8ByteSize < pathLimit := by
    rw [handlerPath_size]
    decide
  obtain ⟨created, w', hc⟩ := create_run (h.canCreate (by simp) hn hshort) hp (by decide)
  have hlayout : ∀ s, Settings.orLoad (some {}) (Path.absolute w.place ⟨.root, ["shop"]⟩) w =
      .ok s w → s.layout = {} := by
    intro s hs
    obtain ⟨rfl, -⟩ := EStateM.Result.ok.inj hs
    rfl
  obtain ⟨hpath, -, -, hword⟩ := create_inTerritory_iff h.sound hlayout hc
  have hd : placeOf w.place created.path = ["shop", "src", "app", "domain", "users"] := by
    rw [hpath, hp, follow_word (by decide) (by decide)]
    decide
  have hin := (hword (by decide)).2 ⟨by decide, by decide⟩
  rw [hp, hd] at hin
  exact ⟨w, w', created, h.sound, hc, hd, hin⟩

theorem Grown.entry {root r : Location} {n : Node} (h : Grown w root []) (hr : r ≠ [])
    (hget : w.tree.get? (root ++ rootNames ++ r) = some n) : r = ["mod.rs"] ∧ n ≠ .directory := by
  have hlist : w.tree.get? (root ++ rootNames ++ ["mod.rs"]) =
      some (.file (Text.encode (String.ofList (ModuleList.listed Template.modulesHead [])))) := by
    rw [← h.list, List.append_assoc]
    rfl
  obtain ⟨x, rest, rfl⟩ := List.exists_cons_of_ne_nil hr
  rw [← List.singleton_append, ← List.append_assoc] at hget
  have hdown : w.tree.get? (root ++ rootNames ++ [x]) ≠ some .directory := by
    by_cases hx : x = "mod.rs"
    · rw [hx, hlist]
      simp
    · rw [h.free x (by simp) hx]
      simp
  by_cases hrest : rest = []
  · subst hrest
    rw [List.append_nil] at hget
    have hx : x = "mod.rs" := by
      by_contra hx
      rw [h.free x (by simp) hx] at hget
      cases hget
    subst hx
    rw [hlist, Option.some_inj] at hget
    exact ⟨rfl, by rw [← hget]; simp⟩
  · exact absurd (get?_of_append hrest hget) hdown

/-- In a new project the domain root itself has room for the files of a domain, one of them over
the module list. -/
theorem Grown.room_here {root : Location} (h : Grown w root [])
    (hshort : Path.spelledSize root + 27 < pathLimit) :
    Template.Room w ⟨.root, root ++ rootNames⟩ (root ++ rootNames) Template.domain.files where
  fits := domain_fits
  named f hf := by simp [domain_files f hf]
  short f hf := by
    have hsize := spelledSize_domain_files f hf
    rw [domain_files f hf, Path.utf8ByteSize_text_root (by simp [rootNames]),
      Path.spelledSize_append, spelledSize_rootNames]
    omega
  noFile f hf ms hms content := by
    rw [domain_files f hf] at hms
    obtain rfl := List.prefix_nil.1 hms
    rw [List.append_nil, h.domainRoot]
    simp
  noDirectory f hf hget := by
    rw [domain_files f hf] at hget
    exact (h.entry (by simp) hget).2 rfl
  apart f hf g hg := by
    rw [domain_files f hf, domain_files g hg]
    simp

/-- In the domain root itself a domain can be created, over the module list. -/
theorem Grown.canCreate_here {root : Location}
    (h : Grown w root []) (hshort : Path.spelledSize root + 27 < pathLimit) :
    CanCreate w "." root Template.domain [] := by
  have hnames : Path.namesOf "." = [] := by decide
  have hbase : (Path.ofString ".").isAbsolute = false := by decide
  have hsize : (⟨.root, root⟩ : Path).text.utf8ByteSize ≤ 1 + Path.spelledSize root :=
    Path.utf8ByteSize_text_append .root [] root
  have hdomains : (⟨.root, root ++ rootNames⟩ : Path).text.utf8ByteSize =
      Path.spelledSize root + 15 := by
    rw [Path.utf8ByteSize_text_root (by simp [rootNames]), Path.spelledSize_append,
      spelledSize_rootNames]
  have hfit : Route.Fit "." := ⟨by decide, by decide, by decide⟩
  obtain ⟨s, t, hs, ht, -⟩ := h.register (by simp) hfit
  refine ⟨h.sound, by decide, ?_, ?_, h.domainRoot, ?_, fits_nil, ?_, fun ms hms content => ?_, ?_,
    domain_shallow, fun r n hget => ?_, ⟨s, t, hs, ht⟩, ⟨_, h.list⟩⟩
  · change Path.join ⟨.root, root ++ rootNames⟩ (Path.ofString ".") = _
    rw [Path.join, hbase]
    change (⟨.root, root ++ rootNames ++ Path.namesOf "."⟩ : Path) = _
    rw [hnames]
  · exact h.opens (by omega)
  · rw [spelledSize_listNames]
    omega
  · rw [hdomains, Path.spelledSize_nil]
    omega
  · obtain rfl := List.prefix_nil.1 hms
    rw [List.append_nil, h.domainRoot]
    simp
  · rw [List.append_nil]
    exact h.room_here hshort
  · rw [List.append_nil] at hget ⊢
    by_cases hr : r = []
    · subst hr
      exact Work.near_nil (by rw [hdomains]; omega)
    · have hmod : Path.spelledSize ["mod.rs"] = 7 := by decide
      rw [(h.entry hr hget).1]
      refine ⟨?_, by decide⟩
      rw [hdomains, hmod]
      omega

/-- Not every creation keeps to its territory: a name that leads nowhere makes the domain root the
directory of the domain, and the template's file is written over the module list. -/
theorem not_forall_inTerritory :
    ¬ ∀ (w w' : Workspace) (name : String) (project : Path) (template : Template)
        (created : Created), w.Sound → create name project template (some {}) w = .ok created w' →
      InTerritory w w' (placeOf w.place project) (placeOf w.place created.path) := by
  intro hall
  obtain ⟨w, hplace, h⟩ := exists_grown
  have hp : placeOf w.place ⟨.root, ["shop"]⟩ = ["shop"] := placeOf_root (by decide) _
  have hcan := h.canCreate_here (by decide)
  obtain ⟨created, w', hc⟩ := create_run hcan hp (by decide)
  obtain ⟨-, settings, -, -, -, -, -, -, -, -, hload, hpath, -⟩ := create_eq_ok hc
  obtain ⟨rfl, -⟩ := EStateM.Result.ok.inj hload
  have habs : Path.absolute w.place ⟨.root, ["shop"]⟩ = ⟨.root, ["shop"]⟩ := by
    rw [← hp]
    rfl
  rw [habs, domainRoot_eq rfl, hcan.path] at hpath
  obtain ⟨x, hx⟩ := (hall w w' _ _ _ created h.sound hc).immediate
  rw [hp, hpath, placeOf_root (by decide)] at hx
  simp [rootNames] at hx

end ApiScaffold.Domain
