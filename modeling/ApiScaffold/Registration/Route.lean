import ApiScaffold.Registration.Anchor
import ApiScaffold.Workspace.Basic

/-! Route files: a domain's routes are imported below one marker and called below another. -/
namespace ApiScaffold.Route

def importEntry : String :=
  "use crate::app::domain::\x7bname\x7d::handler::register_\x7bname\x7d_routes;"

def callEntry : String :=
  "    router = register_\x7bname\x7d_routes(router);"

/-- Inserts the import, then looks for the other marker in the text so changed and inserts the call.
Both markers must be there at first. -/
def register (file imports routes name : String) (s : List Char) : Except Failure (List Char) := do
  if !Text.occurs imports.toList s || !Text.occurs routes.toList s then
    throw (.markersMissing file imports routes)
  let s ← Anchor.insert ⟨imports, importEntry⟩ name s
  Anchor.insert ⟨routes, callEntry⟩ name s

/-- Registers a domain in a route file and gives the new text. -/
def registerIn (file : Path) (name imports routes : String) : Work String := do
  let s ← Work.readText file
  match register file.name imports routes name s.toList with
  | .error f => throw f
  | .ok t =>
    let t := String.ofList t
    Work.writeText file t
    Work.note .debug .registration s!"Registered routes for '{name}' in {file}"
    return t

end ApiScaffold.Route
