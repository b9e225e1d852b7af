import ApiScaffold.Project
import ApiScaffold.Proofs.Registration.ModuleList
import ApiScaffold.Proofs.Registration.Order
import ApiScaffold.Proofs.Settings.Layout
import ApiScaffold.Proofs.Template.Extract
import ApiScaffold.Proofs.Template.Tokens
import ApiScaffold.Template.Domain

/-! The usual templates: where their files go, and what they hold where domains are to be
registered. -/
namespace ApiScaffold.Template
open FileTree Settings
open Text (ofLines toList_ofLines)
variable {w : Workspace} {root : Path} {d : Location}

theorem segments_ofLines {lines : List String} (h : ∀ l ∈ lines, '\n' ∉ l.toList) :
    Text.segments '\n' (ofLines lines).toList = lines.map String.toList ++ [[]] := by
  have hseg :
      Text.segments '\n' (Text.ended (lines.map String.toList) ++ ([] ++ Text.following [])) =
      lines.map String.toList ++ [[]] := by
    refine Text.segments_ended fun l hl => ?_
    rw [List.mem_append, List.mem_map, List.mem_singleton] at hl
    rcases hl with ⟨s, hs, rfl⟩ | rfl
    · exact h s hs
    · simp
  rw [toList_ofLines]
  simpa using hseg

def projectWays : List (List String) :=
  [[".env.example"], [".gitignore"], ["Cargo.toml"],
    ["README.md"], ["cmd", "export_openapi.rs"], ["cmd", "main.rs"],
  ["cmd", "migrate.rs"], ["db", "migrations", ".keep"], ["diesel.toml"], ["prustbowo.yaml"],
  ["src", "app", "domain", "mod.rs"], ["src", "app", "mod.rs"], ["src", "app", "route.rs"],
  ["src", "lib.rs"], ["src", "prelude.rs"]]

theorem project_ways : project.files.map (fun f => Path.namesOf f.1) = projectWays := by
  decide +kernel

theorem mem_projectWays {f : String × String} (hf : f ∈ project.files) :
    Path.namesOf f.1 ∈ projectWays := by
  rw [← project_ways]
  exact List.mem_map.2 ⟨f, hf, rfl⟩

/-- The bytes of the longest way to a file of a new project, with a slash in front of each name. -/
theorem spelledSize_projectWays : ∀ r ∈ projectWays, Path.spelledSize r ≤ 22 := by
  decide

theorem projectWays_shallow : ∀ r ∈ projectWays, r.length ≤ Work.usualLevels := by
  decide

theorem projectWays_fits : ∀ r ∈ projectWays, Fits r := by
  decide

theorem projectWays_apart : ∀ r ∈ projectWays, r ≠ [] ∧ ∀ s ∈ projectWays, ¬ r <+: s.dropLast := by
  decide

theorem project_nodup : (project.files.map fun f => Path.namesOf f.1).Nodup := by
  rw [project_ways]
  decide

theorem project_modules : ("src/app/domain/mod.rs", Project.modules) ∈ project.files ∧
    Path.namesOf "src/app/domain/mod.rs" = listNames ∧
    ¬ ApiScaffold.Project.nameToken.toList <:+: Project.modules.toList ∧
    ¬ ApiScaffold.Project.crateToken.toList <:+: Project.modules.toList := by
  refine ⟨by simp [project], by decide, not_infix_tokens ?_⟩
  repeat' first | exact forall_lines_nil Plain | refine forall_lines_cons Plain (by decide) ?_

theorem project_routes : ("src/app/route.rs", Project.routes) ∈ project.files ∧
    Path.namesOf "src/app/route.rs" = routeNames ∧
    ¬ ApiScaffold.Project.nameToken.toList <:+: Project.routes.toList ∧
    ¬ ApiScaffold.Project.crateToken.toList <:+: Project.routes.toList := by
  refine ⟨by simp [project], by decide, not_infix_tokens ?_⟩
  repeat' first | exact forall_lines_nil Plain | refine forall_lines_cons Plain (by decide) ?_

theorem projectWays_domain : ∀ r ∈ projectWays, rootNames <+: r → r = listNames := by
  decide

theorem room_project (hd : w.tree.get? d = some .directory)
    (hnew : ∀ r, r ≠ [] → w.tree.get? (d ++ r) = none)
    (hsize : root.text.utf8ByteSize + 22 < pathLimit) : Room w root d project.files where
  fits f hf := projectWays_fits _ (mem_projectWays hf)
  named f hf := (projectWays_apart _ (mem_projectWays hf)).1
  short f hf := by
    have := spelledSize_projectWays _ (mem_projectWays hf)
    omega
  noFile f hf ms hms content := by
    by_cases hne : ms = []
    · simp [hne, hd]
    · simp [hnew ms hne]
  noDirectory f hf := by simp [hnew _ (projectWays_apart _ (mem_projectWays hf)).1]
  apart f hf g hg := (projectWays_apart _ (mem_projectWays hf)).2 _ (mem_projectWays hg)

def modulesHead : List Char :=
  "// Domain modules registered by `prustbowo create domain`.".toList

theorem modules_listed : Project.modules.toList = ModuleList.listed modulesHead [] := by
  rw [Project.modules, toList_ofLines]
  rfl

theorem modulesHead_oneLine : ModuleList.OneLine modulesHead := by
  decide

theorem strip_modulesHead (name : String) :
    Text.strip modulesHead ≠ ModuleList.declaration name := by
  intro h
  have hslash : (Text.strip modulesHead).head? = some '/' := by decide
  rw [h, ModuleList.head?_declaration] at hslash
  simp at hslash

def routesAbove : List String :=
  ["use axum::Router;", "use utoipa::OpenApi;", "use utoipa_swagger_ui::SwaggerUi;", ""]

def routesBetween : List String := [
  "", "#[derive(OpenApi)]", "#[openapi(", "    paths(),", "    components(schemas()),",
  "    tags((name = \"api\", description = \"API endpoints\"))", ")]", "pub struct ApiDoc;", "",
  "pub fn app_router(router: Router) -> Router \x7b", "    let mut router = router;"]

def routesBelow : List String := [
  "    router = router.merge(SwaggerUi::new(\"/docs\").url(\"/api-docs/openapi.json\", ApiDoc::openapi()));",
  "    router", "\x7d"]

theorem routes_eq : Project.routes = ofLines (routesAbove ++ Route.usualImports.marker ::
    (routesBetween ++ ("    " ++ Route.usualCalls.marker) :: routesBelow)) :=
  rfl

theorem usualImports_toList : Route.usualImports.marker.toList =
    ['/', '/', ' ', '<', 'p', 'r', 'u', 's', 't', 'b', 'o', 'w', 'o', ':', 'i', 'm', 'p', 'o', 'r',
      't', 's', '>'] :=
  String.toList_ofList

theorem usualCalls_toList : Route.usualCalls.marker.toList =
    ['/', '/', ' ', '<', 'p', 'r', 'u', 's', 't', 'b', 'o', 'w', 'o', ':', 'r', 'o', 'u', 't',
      'e', 's', '>'] :=
  String.toList_ofList

/-- One line that holds no marker and is no entry. -/
def Bare (line : List Char) : Prop :=
  '\n' ∉ line ∧ Route.importLead.isPrefixOf line = false ∧ Route.callLead.isPrefixOf line = false ∧
    Text.occurs ['/', '/', ' ', '<', 'p', 'r',
      'u', 's', 't', 'b', 'o', 'w', 'o', ':', 'i', 'm', 'p', 'o', 'r', 't', 's', '>'] line = false ∧
    Text.occurs ['/', '/', ' ', '<', 'p', 'r', 'u', 's', 't', 'b', 'o', 'w', 'o', ':', 'r', 'o',
      'u', 't', 'e', 's', '>'] line = false

instance (line : List Char) : Decidable (Bare line) :=
  inferInstanceAs (Decidable (_ ∧ _))

theorem Bare.unmarked {line : List Char} (h : Bare line) :
    Text.occurs Route.usualImports.marker.toList line = false ∧
      Text.occurs Route.usualCalls.marker.toList line = false := by
  rw [usualImports_toList, usualCalls_toList]
  exact h.2.2.2

set_option maxRecDepth 1024 in
theorem routes_bare : (∀ l ∈ routesAbove, Bare l.toList) ∧ (∀ l ∈ routesBetween, Bare l.toList) ∧
    ∀ l ∈ routesBelow, Bare l.toList := by
  refine ⟨?_, ?_, ?_⟩
  all_goals repeat' first | exact forall_lines_nil Bare |
    refine forall_lines_cons Bare (by decide) ?_

/-- The route file of a new project: no entries stand below the two markers. -/
theorem routes_lines : ∃ above between below,
    Text.segments '\n' Project.routes.toList = above ++ Route.usualImports.marker.toList ::
      (between ++ ("    ".toList ++ Route.usualCalls.marker.toList) :: below) ∧
    Route.Unfilled above between below [] "    ".toList := by
  obtain ⟨habove, hbetween, hbelow⟩ := routes_bare
  have hmarkers : '\n' ∉ Route.usualImports.marker.toList ∧
      '\n' ∉ ("    " ++ Route.usualCalls.marker).toList := by
    rw [String.toList_append, usualImports_toList, usualCalls_toList]
    decide
  refine ⟨routesAbove.map String.toList, routesBetween.map String.toList,
    routesBelow.map String.toList ++ [[]], ?_, ?_⟩
  · have hlines : ∀ l ∈ routesAbove ++ Route.usualImports.marker ::
        (routesBetween ++ ("    " ++ Route.usualCalls.marker) :: routesBelow), '\n' ∉ l.toList := by
      simp only [List.forall_mem_append, List.forall_mem_cons]
      exact ⟨fun l hl => (habove l hl).1, hmarkers.1, fun l hl => (hbetween l hl).1, hmarkers.2,
        fun l hl => (hbelow l hl).1⟩
    rw [routes_eq, segments_ofLines hlines]
    simp
  · refine ⟨?_, ?_, ?_, by simp, by simp⟩
    · exact List.forall_mem_map.2 fun l hl => (habove l hl).unmarked
    · exact List.forall_mem_map.2 fun l hl => ⟨(hbetween l hl).2.1, (hbetween l hl).unmarked.2⟩
    · rw [List.forall_mem_append, List.forall_mem_map]
      exact ⟨fun l hl => (hbelow l hl).2.2.1, by decide⟩

theorem domain_ways :
    domain.files.map (fun f => Path.namesOf f.1) = [["handler.rs"], ["mod.rs"], ["model.rs"]] := by
  decide

end ApiScaffold.Template
