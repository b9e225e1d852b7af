import ApiScaffold.Text.Search
import ApiScaffold.Workspace.Directories

/-! Placeholders: tokens in the texts of files that give way to a value. -/
namespace ApiScaffold.Placeholder

/-- The text of a file; a file that is no text counts as empty. -/
def textOrEmpty (p : Path) : Work String := do
  match Text.decode (← Work.readBytes p) with
  | .ok s => return s
  | .error _ =>
    Work.note .debug .placeholders s!"Skipping non-text file {p}"
    return ""

/-- Replaces the token in one file, which is written only if the token occurs in it. -/
def replaceIn (token value : String) (p : Path) : Work Bool := do
  let s := (← textOrEmpty p).toList
  if !Text.occurs token.toList s then return false
  Work.writeText p (String.ofList (Text.replace token.toList value.toList s))
  return true

/-- Replaces the token in all files below a directory. The files rewritten are given in order. -/
def replaceBelow (root : Path) (token value : String) (levels : Nat := Work.usualLevels) :
    Work (List Path) := do
  if token = "" then throw (.empty .placeholderToken)
  let files ← Work.filesBelow root levels
  let rewritten ← files.filterM (replaceIn token value)
  Work.note .debug .placeholders s!"Replaced {token} in {rewritten.length} file(s) under {root}"
  return rewritten

end ApiScaffold.Placeholder
