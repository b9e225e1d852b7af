import ApiScaffold.Domain
import ApiScaffold.Proofs.Placeholder
import ApiScaffold.Proofs.Registration.ModuleList
import ApiScaffold.Proofs.Registration.RouteFile
import ApiScaffold.Proofs.Settings.Layout
import ApiScaffold.Proofs.Settings.Load
import ApiScaffold.Proofs.Template.Extract

/-! Creating a domain step by step: the steps that it takes where it ends well, and what it
takes to end well. -/
namespace ApiScaffold
open FileTree Settings

namespace Domain
variable {w w' : Workspace} {name : String} {project : Path} {template : Template}
  {given : Option Settings} {created : Created} {settings : Settings}

theorem create_eq_ok (h : create name project template given w = .ok created w') : name ≠ "" ∧
    ∃ settings w₁ w₂ w₃ w₄ w₅ files rewritten text,
      Settings.orLoad given (project.absolute w.place) w = .ok settings w ∧
      created.path = settings.domainRoot (project.absolute w.place) / name ∧
      Work.ensureDirectory created.path w = .ok () w₁ ∧
      template.extract created.path w₁ = .ok files w₂ ∧
      Placeholder.replaceBelow created.path nameToken name Work.usualLevels w₂ = .ok rewritten w₃ ∧
      Route.registerIn (settings.routeFile (project.absolute w.place)) name settings.markers.imports
        settings.markers.routes w₃ = .ok text w₄ ∧
      ModuleList.registerIn (settings.moduleList (project.absolute w.place)) name w₄ =
        .ok created.moduleAdded w₅ ∧ w₅.Beside w' ∧ w'.tree = w₅.tree := by
  unfold create at h
  obtain ⟨u, v, hcheck, h₁⟩ := Work.bind_eq_ok_iff.1 h
  have hname : name ≠ "" := by
    rintro rfl
    cases hcheck
  unfold checkName at hcheck
  rw [if_neg hname] at hcheck
  obtain ⟨-, rfl⟩ := EStateM.Result.ok.inj hcheck
  obtain ⟨q, v, habs, h₂⟩ := Work.bind_eq_ok_iff.1 h₁
  obtain ⟨rfl, -, rfl⟩ := Work.absolute_eq_ok habs
  obtain ⟨settings, v', hload, h₃⟩ := Work.bind_eq_ok_iff.1 h₂
  obtain rfl := Settings.orLoad_eq_ok hload
  obtain ⟨u₁, w₁, hmake, h₄⟩ := Work.bind_eq_ok_iff.1 h₃
  obtain ⟨u₂, w₂, hextract, h₅⟩ := Work.bind_eq_ok_iff.1 h₄
  obtain ⟨u₃, w₃, hreplace, h₆⟩ := Work.bind_eq_ok_iff.1 h₅
  obtain ⟨u₄, w₄, hroute, h₇⟩ := Work.bind_eq_ok_iff.1 h₆
  obtain ⟨added, w₅, hlist, h₈⟩ := Work.bind_eq_ok_iff.1 h₇
  obtain ⟨u₆, w₆, hnote, h₉⟩ := Work.bind_eq_ok_iff.1 h₈
  obtain ⟨rfl, rfl⟩ := EStateM.Result.ok.inj h₉
  rw [Work.note_run] at hnote
  obtain ⟨-, rfl⟩ := EStateM.Result.ok.inj hnote
  obtain ⟨files, hextract⟩ := Work.discard_eq_ok_iff.1 hextract
  obtain ⟨rewritten, hreplace⟩ := Work.discard_eq_ok_iff.1 hreplace
  obtain ⟨text, hroute⟩ := Work.discard_eq_ok_iff.1 hroute
  exact ⟨hname, settings, w₁, w₂, w₃, w₄, w₅, files, rewritten, text, hload, rfl, hmake, hextract,
    hreplace, hroute, hlist, ⟨_, _, rfl⟩, rfl⟩

/-- A creation is refused for the name or for the project, or it gets to its steps. -/
theorem create_refused_or (name : String) (project : Path)
    (template : Template) (given : Option Settings)
    (w : Workspace) : create name project template given w = .error (.empty .domainName) w ∨
      create name project template given w = .error .nulInPath w ∨
      name ≠ "" ∧ project.hasNul = false := by
  unfold create checkName Work.absolute
  by_cases hname : name = ""
  · rw [if_pos hname]
    exact .inl rfl
  · cases hn : project.hasNul with
    | true =>
      rw [if_neg hname]
      exact .inr (.inl rfl)
    | false => exact .inr (.inr ⟨hname, rfl⟩)

section Usual
variable {root : Location} {path : Path} {files rewritten : List Path} {w₁ w₂ w₃ : Workspace}

/-- Where a creation in the usual layout finds the domain root, the route file and the module
list. -/
theorem usual_places (hp : placeOf w.place project = root) :
    ({} : Settings).domainRoot (project.absolute w.place) = ⟨.root, root ++ rootNames⟩ ∧
      ({} : Settings).routeFile (project.absolute w.place) = ⟨.root, root ++ routeNames⟩ ∧
      ({} : Settings).moduleList (project.absolute w.place) = ⟨.root, root ++ listNames⟩ := by
  subst hp
  exact ⟨domainRoot_eq rfl _, routeFile_eq rfl _, moduleList_eq rfl _⟩

theorem usual_eq_ok (hp : placeOf w.place project = root)
    (h : create name project template (some {}) w = .ok created w') :
    created.path = (⟨.root, root ++ rootNames⟩ : Path) / name ∧
    ∃ w₁ w₂ w₃ w₄ w₅ files rewritten text, Work.ensureDirectory created.path w = .ok () w₁ ∧
      template.extract created.path w₁ = .ok files w₂ ∧
      Placeholder.replaceBelow created.path nameToken name Work.usualLevels w₂ = .ok rewritten w₃ ∧
      Route.registerIn ⟨.root, root ++ routeNames⟩ name ({} : Settings).markers.imports
        ({} : Settings).markers.routes w₃ = .ok text w₄ ∧
      ModuleList.registerIn ⟨.root, root ++ listNames⟩ name w₄ = .ok created.moduleAdded w₅ ∧
      w₅.Beside w' ∧ w'.tree = w₅.tree := by
  obtain ⟨-, settings, w₁, w₂, w₃, w₄, w₅, files, rewritten, text, hload, hpath, hmake, hextract,
    hreplace, hroute, hlist, hb, htree⟩ := create_eq_ok h
  obtain ⟨rfl, -⟩ := EStateM.Result.ok.inj hload
  obtain ⟨hdomains, hroutes, hmodules⟩ := usual_places hp
  rw [hdomains] at hpath
  rw [hroutes] at hroute
  rw [hmodules] at hlist
  exact ⟨hpath, w₁, w₂, w₃, w₄, w₅, files, rewritten, text, hmake, hextract, hreplace, hroute,
    hlist, hb, htree⟩

/-- In the usual layout a creation writes its directory, then makes the registrations. -/
theorem create_run_eq (hname : name ≠ "")
    (hn : project.hasNul = false) (hp : placeOf w.place project = root)
    (hpath : (⟨.root, root ++ rootNames⟩ : Path) / name = path) :
    create name project template (some {}) w = (do
      Work.ensureDirectory path
      discard (template.extract path)
      discard (Placeholder.replaceBelow path nameToken name)
      registrations name path ⟨.root, root ++ routeNames⟩ ⟨.root, root ++ listNames⟩ {} :
        Work Created) w := by
  obtain ⟨hdomains, hroutes, hmodules⟩ := usual_places hp
  have hcheck : checkName name w = .ok () w := by
    unfold checkName
    rw [if_neg hname]
    rfl
  have hload : Settings.orLoad (some {}) (project.absolute w.place) w = .ok {} w := rfl
  subst hpath
  rw [← hdomains, ← hroutes, ← hmodules]
  unfold create
  rw [Work.bind_of_ok hcheck, Work.bind_of_ok (Work.absolute_run hn), Work.bind_of_ok hload]

/-- Once its directory has been written a creation ends as the registrations do. -/
theorem create_eq_registrations (hname : name ≠ "") (hn : project.hasNul = false)
    (hp : placeOf w.place project = root)
    (hpath : (⟨.root, root ++ rootNames⟩ : Path) / name = path)
    (hmake : Work.ensureDirectory path w = .ok () w₁)
    (hextract : template.extract path w₁ = .ok files w₂)
    (hreplace : Placeholder.replaceBelow path nameToken name Work.usualLevels w₂ =
      .ok rewritten w₃) : create name project template (some {}) w =
      registrations name path ⟨.root, root ++ routeNames⟩ ⟨.root, root ++ listNames⟩ {} w₃ := by
  rw [create_run_eq hname hn hp hpath, Work.bind_of_ok hmake,
    Work.bind_of_ok (Work.discard_of_ok hextract), Work.bind_of_ok (Work.discard_of_ok hreplace)]

end Usual

theorem deaf_registrations (name : String)
    (directory routeFile list : Path) (markers : Settings.Markers) :
    Work.Deaf (registrations name directory routeFile list markers) :=
  ((Route.deaf_registerIn _ _ _ _).bind fun _ => Work.deaf_pure _).bind fun _ =>
    (ModuleList.deaf_registerIn _ _).bind fun _ =>
      (Work.deaf_note _ _ _).bind fun _ => Work.deaf_pure _

/-- What a creation needs in the usual layout: its directory can be reached and made, the template
has room there, all paths are short enough, and the route file takes the registration. -/
structure CanCreate (w : Workspace) (name : String) (root : Location) (template : Template)
    (ns : List String) : Prop where
  sound : w.Sound
  named : name ≠ ""
  path : (⟨.root, root ++ rootNames⟩ : Path) / name = ⟨.root, root ++ rootNames ++ ns⟩
  project : w.Opens ⟨.root, root⟩ root
  domainRoot : w.tree.get? (root ++ rootNames) = some .directory
  short : (⟨.root, root⟩ : Path).text.utf8ByteSize + Path.spelledSize listNames < pathLimit
  directoryFits : Fits ns
  directoryShort :
    (⟨.root, root ++ rootNames⟩ : Path).text.utf8ByteSize + Path.spelledSize ns < pathLimit
  noFile : ∀ ms, ms <+: ns → ∀ content, w.tree.get? (root ++ rootNames ++ ms) ≠ some (.file content)
  room : Template.Room w ⟨.root, root ++ rootNames ++ ns⟩ (root ++ rootNames ++ ns) template.files
  shallow : ∀ f ∈ template.files, (Path.namesOf f.1).length ≤ Work.usualLevels
  entriesNear : ∀ r n, w.tree.get? (root ++ rootNames ++ ns ++ r) = some n →
    Work.Near ⟨.root, root ++ rootNames ++ ns⟩ r
  route : ∃ c t, w.tree.get? (root ++ routeNames) = some (.file (Text.encode c)) ∧ Route.register
    "route.rs" ({} : Settings).markers.imports ({} : Settings).markers.routes name c.toList = .ok t
  list : ∃ content, w.tree.get? (root ++ listNames) = some (.file content)

namespace CanCreate
variable {root ns : Location}

theorem reaches (hc : CanCreate w name root template ns) {r : Location} {n : Node}
    (hfit : Fits r) (hr : r ≠ []) (hsize : Path.spelledSize r ≤ Path.spelledSize listNames)
    (hget : w.tree.get? (root ++ r) = some n) : w.Reaches ⟨.root, root ++ r⟩ (root ++ r) := by
  have hshort := hc.short
  refine hc.project.reaches hfit (fun _ => ?_) (by omega)
  have habove := get?_dropLast hget
  rwa [List.dropLast_append_of_ne_nil hr] at habove

theorem directory_run (hc : CanCreate w name root template ns) :
    ∃ w₁, Work.ensureDirectory ⟨.root, root ++ rootNames ++ ns⟩ w = .ok () w₁ ∧
      w.Beside w₁ ∧ w₁.Sound ∧ w₁.Opens ⟨.root, root ++ rootNames ++ ns⟩ (root ++ rootNames ++ ns) ∧
      Grows (· <+: root ++ rootNames ++ ns) (fun _ => False) w.tree w₁.tree := by
  have hroot : w.Opens ⟨.root, root ++ rootNames⟩ (root ++ rootNames) :=
    ⟨hc.reaches rootNames_fits (by decide) (by decide) hc.domainRoot, hc.domainRoot⟩
  obtain ⟨w₁, hw₁⟩ := Work.ensureDirectory_below hroot hc.directoryFits hc.directoryShort hc.noFile
  obtain ⟨hb, ⟨l, hopens⟩, hg⟩ := Work.ensureDirectory_eq_ok hw₁
  have hl :=
    hopens.1.eq.trans (placeOf_append hc.directoryFits.not_mem w₁.place ⟨.root, root ++ rootNames⟩)
  rw [hb.place, ← hroot.1.eq] at hl
  subst hl
  have hs : w₁.Sound := hc.sound.grows hb
    (hg.mono (fun k hway _ => hway.fits (hb.place ▸ hc.sound.place)) (fun _ h _ => h.elim))
  refine ⟨w₁, hw₁, hb, hs, hopens, hg.mono (fun k hway hk => ?_) (fun _ h _ => h)⟩
  obtain ⟨ms, hms, -, rfl⟩ :=
    Work.Way.below (p := ⟨.root, root ++ rootNames⟩) hway hroot hc.directoryFits.not_mem hb hk
  exact (List.prefix_append_right_inj _).2 hms

theorem files_run (hc : CanCreate w name root template ns) : ∃ w₁ w₂ w₃ files rewritten,
    Work.ensureDirectory ⟨.root, root ++ rootNames ++ ns⟩ w = .ok () w₁ ∧
    template.extract ⟨.root, root ++ rootNames ++ ns⟩ w₁ = .ok files w₂ ∧
    Placeholder.replaceBelow ⟨.root, root ++ rootNames ++ ns⟩ nameToken name Work.usualLevels w₂ =
      .ok rewritten w₃ ∧ w.Beside w₃ ∧
      Grows (fun _ => True) (Placeholder.Below (root ++ rootNames ++ ns)) w.tree w₃.tree := by
  obtain ⟨w₁, hw₁, hb₁, hs₁, hopens₁, hg₁⟩ := hc.directory_run
  obtain ⟨files, w₂, hw₂⟩ :=
    Template.extract_run hopens₁ hs₁.place (hc.room.above hg₁ fun _ h _ => h)
  obtain ⟨-, hb₂, hg₂, -⟩ := Template.extract_eq_ok hopens₁ hs₁.place hw₂
  have hs₂ := Template.sound_of_extract hs₁ hopens₁ hw₂
  have hopens₂ := hopens₁.grows hb₂ hg₂
  have hnear : ∀ r n, w₁.tree.get? (root ++ rootNames ++ ns ++ r) = some n →
      Work.Near ⟨.root, root ++ rootNames ++ ns⟩ r := by
    intro r n hr
    rcases hg₁ (root ++ rootNames ++ ns ++ r) with he | ⟨hway, -⟩ | ⟨hno, -⟩
    · exact hc.entriesNear r n (he ▸ hr)
    · obtain rfl : r = [] := by
        have hlen := hway.length_le
        simp only [List.length_append] at hlen
        exact List.length_eq_zero_iff.1 (by omega)
      exact Work.near_nil hopens₁.1.short
    · exact hno.elim
  have htoken : nameToken ≠ "" := by decide
  obtain ⟨rewritten, w₃, hw₃⟩ := Placeholder.replaceBelow_run htoken name hs₂ hopens₂
    (Template.near_of_grows hnear (fun f hf => ⟨hc.room.short f hf, hc.shallow f hf⟩) hg₂)
  have hb₃ := (Placeholder.replaceBelow_eq_ok hs₂ hopens₂ hw₃).2.1
  have hg₃ := Placeholder.grows_of_replaceBelow hs₂ hopens₂ hw₃
  refine ⟨w₁, w₂, w₃, files, rewritten, hw₁, hw₂, hw₃, (hb₁.trans hb₂).trans hb₃, ?_⟩
  refine (hg₁.mono (fun _ _ _ => trivial) (fun _ h _ => h.elim)).trans
    ((hg₂.mono (fun _ _ _ => trivial) ?_).trans (hg₃.mono (fun _ h _ => h.elim) (fun _ h _ => h.2)))
  rintro k ⟨-, f, -, hne, rfl⟩ -
  exact ⟨_, hne, rfl⟩

/-- Both registrations can still be made when files have been written below the directory
of the domain. -/
theorem registrations_run (hc : CanCreate w name root template ns)
    {w₃ : Workspace} (hb : w.Beside w₃)
    (hg : Grows (fun _ => True) (Placeholder.Below (root ++ rootNames ++ ns)) w.tree w₃.tree) :
    ∃ w₄ w₅ text added,
      Route.registerIn ⟨.root, root ++ routeNames⟩ name ({} : Settings).markers.imports
        ({} : Settings).markers.routes w₃ = .ok text w₄ ∧
      ModuleList.registerIn ⟨.root, root ++ listNames⟩ name w₄ = .ok added w₅ := by
  obtain ⟨c, t, hcontent, hreg⟩ := hc.route
  have hname : Path.name ⟨.root, root ++ routeNames⟩ = "route.rs" := by simp [Path.name, routeNames]
  rw [← hname] at hreg
  have hroute := (hc.reaches routeNames_fits (by decide) (by decide) hcontent).grows hb hg
  have hcontent₃ : w₃.tree.get? (root ++ routeNames) = some (.file (Text.encode c)) := by
    refine hg.of_not_written hcontent ?_
    rintro ⟨r, -, he⟩
    exact route_ne _ _ _ he
  obtain ⟨w₄, hw₄, hb₄, hget₄, -⟩ := Route.registerIn_of_ok hroute hcontent₃ hreg
  have hg₄ := grows_of_get? (by simp [hcontent₃]) hget₄
  obtain ⟨list, hlist⟩ := hc.list
  obtain ⟨list₃, hlist₃⟩ := hg.file hlist
  obtain ⟨list₄, hlist₄⟩ := hg₄.file hlist₃
  have hreach := (hc.reaches listNames_fits (by decide) (by decide) hlist).grows hb hg
  obtain ⟨added, w₅, hw₅⟩ := ModuleList.registerIn_run name (hreach.grows hb₄ hg₄) hlist₄
  exact ⟨w₄, w₅, _, added, hw₄, hw₅⟩

end CanCreate

theorem create_run {root ns : Location} (hc : CanCreate w name root template ns)
    (hp : placeOf w.place project = root) (hn : project.hasNul = false) :
    ∃ created w', create name project template (some {}) w = .ok created w' := by
  obtain ⟨w₁, w₂, w₃, files, rewritten, hmake, hextract, hreplace, hb, hg⟩ := hc.files_run
  obtain ⟨w₄, w₅, text, added, hroute, hlist⟩ := hc.registrations_run hb hg
  rw [create_eq_registrations hc.named hn hp hc.path hmake hextract hreplace]
  exact Work.bind_run (Work.discard_of_ok hroute) (Work.bind_run hlist ⟨_, _, rfl⟩)

end Domain
end ApiScaffold
