import ApiScaffold.Proofs.Workspace.Sound
import ApiScaffold.Settings.Basic

/-! The usual layout: where a project keeps its domains, its route file and its module list. -/
namespace ApiScaffold.Settings
variable {settings : Settings}

/-- The way from a project to its domains in the usual layout. -/
def rootNames : List String := ["src", "app", "domain"]

def routeNames : List String := ["src", "app", "route.rs"]

def listNames : List String := ["src", "app", "domain", "mod.rs"]

def migrationNames : List String := ["db", "migrations"]

theorem domainRoot_eq (h : settings.layout = {}) (p : Path) :
    settings.domainRoot p = ⟨p.base, p.names ++ rootNames⟩ := by
  have hs : Path.ofString "src/app/domain" = ⟨.here, rootNames⟩ := by decide
  rw [Settings.domainRoot, h]
  change p.join (Path.ofString "src/app/domain") = _
  rw [hs]
  rfl

theorem routeFile_eq (h : settings.layout = {}) (p : Path) :
    settings.routeFile p = ⟨p.base, p.names ++ routeNames⟩ := by
  have hs : Path.ofString "src/app/route.rs" = ⟨.here, routeNames⟩ := by decide
  rw [Settings.routeFile, h]
  change p.join (Path.ofString "src/app/route.rs") = _
  rw [hs]
  rfl

theorem moduleList_eq (h : settings.layout = {}) (p : Path) :
    settings.moduleList p = ⟨p.base, p.names ++ listNames⟩ := by
  rw [Settings.moduleList, domainRoot_eq h,
    Path.child_of_not_mem (by decide) (by decide) (by decide)]
  simp [rootNames, listNames]

theorem migrations_eq (h : settings.layout = {}) (p : Path) :
    settings.migrations p = ⟨p.base, p.names ++ migrationNames⟩ := by
  have hs : Path.ofString "db/migrations" = ⟨.here, migrationNames⟩ := by decide
  rw [Settings.migrations, h]
  change p.join (Path.ofString "db/migrations") = _
  rw [hs]
  rfl

theorem rootNames_fits : FileTree.Fits rootNames := by
  unfold FileTree.Fits
  decide

theorem routeNames_fits : FileTree.Fits routeNames := by
  unfold FileTree.Fits
  decide

theorem listNames_fits : FileTree.Fits listNames := by
  unfold FileTree.Fits
  decide

theorem migrationNames_fits : FileTree.Fits migrationNames := by
  unfold FileTree.Fits
  decide

theorem spelledSize_rootNames : Path.spelledSize rootNames = 15 := by
  decide

theorem spelledSize_routeNames : Path.spelledSize routeNames = 17 := by
  decide

theorem spelledSize_listNames : Path.spelledSize listNames = 22 := by
  decide

/-- The route file is not below the domain root. -/
theorem route_ne (root ns r : Location) : root ++ routeNames ≠ root ++ rootNames ++ ns ++ r := by
  intro h
  rw [List.append_assoc, List.append_assoc] at h
  exact absurd (List.append_cancel_left h) (by simp [routeNames, rootNames])

/-- Paths below the domain root are not spelled like the path of the route file. -/
theorem text_ne_route (root r : Location) :
    (⟨.root, root ++ rootNames ++ r⟩ : Path).text ≠ (⟨.root, root ++ routeNames⟩ : Path).text := by
  intro h
  have hlist := congrArg String.toList h
  rw [Path.toList_text_root (by simp [rootNames]), Path.toList_text_root (by simp [routeNames]),
    List.append_assoc, List.flatMap_append, List.flatMap_append, List.flatMap_append] at hlist
  have hafter := List.append_cancel_left hlist
  simp [rootNames, routeNames] at hafter

theorem list_ne {name : String} (hn : name ≠ "mod.rs") (root r : Location) :
    root ++ listNames ≠ root ++ rootNames ++ [name] ++ r := by
  intro h
  rw [List.append_assoc, List.append_assoc] at h
  have := List.append_cancel_left h
  simp only [listNames, rootNames, List.cons_append, List.nil_append, List.cons.injEq,
    true_and] at this
  exact hn this.1.symm

end ApiScaffold.Settings
