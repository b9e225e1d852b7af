import ApiScaffold.Registration.Route
import Mathlib.Data.List.Infix

/-! Entries as texts: templates are rendered part by part, and those of a route file for every
name. -/
namespace ApiScaffold.EntryTemplate

def nameField : List Char := "\x7bname\x7d".toList

theorem pieces_cons {c : Char} (hc : c ≠ '\x7b' ∧ c ≠ '\x7d') (template : List Char) :
    pieces (c :: template) = .char c :: pieces template := by
  unfold pieces
  rw [piecesFrom.eq_def]
  split <;> simp_all

theorem pieces_doubled {c : Char} (hc : c = '\x7b' ∨ c = '\x7d') (template : List Char) :
    pieces (c :: c :: template) = .char c :: pieces template := by
  rcases hc with rfl | rfl <;> rfl

theorem pieces_nameField (template : List Char) :
    pieces (nameField ++ template) = .field ⟨"name".toList, none, []⟩ :: pieces template :=
  rfl

theorem valueAt_name (name : List Char) : valueAt name "name".toList = .ok (.text name) := by
  have hkey : ("name".toList.takeWhile fun c => c ≠ '.' ∧ c ≠ '[') = "name".toList := by decide
  have hindex : index? "name".toList = .ok none := by decide
  have hrest : "name".toList.drop "name".toList.length = [] := by decide
  unfold valueAt
  simp only [hkey, hindex, hrest]
  rw [follow]
  rfl

theorem render_of_pieces {c : Char} {s template : List Char}
    (h : pieces s = .char c :: pieces template)
    (name : List Char) : render s name = (render template name).map (c :: ·) := by
  unfold render fill
  rw [h, List.mapM_cons]
  simp only [pure_bind]
  generalize List.mapM (m := Except Defect) _ (pieces template) = parts
  cases parts <;> rfl

theorem render_cons {c : Char} (hc : c ≠ '\x7b' ∧ c ≠ '\x7d') (template name : List Char) :
    render (c :: template) name = (render template name).map (c :: ·) :=
  render_of_pieces (pieces_cons hc template) name

theorem render_doubled {c : Char} (hc : c = '\x7b' ∨ c = '\x7d') (template name : List Char) :
    render (c :: c :: template) name = (render template name).map (c :: ·) :=
  render_of_pieces (pieces_doubled hc template) name

theorem render_nameField_append (template name : List Char) :
    render (nameField ++ template) name = (render template name).map (name ++ ·) := by
  unfold render fill
  rw [pieces_nameField, List.mapM_cons]
  have hbrace : ¬ '\x7b' ∈ ([] : List Char) := by simp
  simp only [valueAt_name, hbrace, if_false]
  generalize List.mapM (m := Except Defect) _ (pieces template) = parts
  cases parts <;> rfl

theorem render_append {s : List Char} (hs : '\x7b' ∉ s ∧ '\x7d' ∉ s) (template name : List Char) :
    render (s ++ template) name = (render template name).map (s ++ ·) := by
  induction s with
  | nil => cases h : render template name <;> simp [h, Except.map]
  | cons c s ih =>
    have hc : c ≠ '\x7b' ∧ c ≠ '\x7d' :=
      ⟨fun h => hs.1 (h ▸ List.mem_cons_self), fun h => hs.2 (h ▸ List.mem_cons_self)⟩
    have hs' : '\x7b' ∉ s ∧ '\x7d' ∉ s := ⟨fun h => hs.1 (.tail c h), fun h => hs.2 (.tail c h)⟩
    rw [List.cons_append, render_cons hc, ih hs']
    cases render template name <;> rfl

theorem render_nil (name : List Char) : render [] name = .ok [] :=
  rfl

end ApiScaffold.EntryTemplate

namespace ApiScaffold.Route
open EntryTemplate

def importLead : List Char := "use crate::app::domain::".toList

def callLead : List Char := "    router = register_".toList

def importLine (name : String) : List Char :=
  importLead ++
    (name.toList ++ ("::handler::register_".toList ++ (name.toList ++ "_routes;".toList)))

def callLine (name : String) : List Char :=
  callLead ++ (name.toList ++ "_routes(router);".toList)

theorem render_importEntry (marker name : String) :
    (Anchor.mk marker importEntry).render name = .ok (importLine name) := by
  have he : importEntry.toList = importLead ++ (nameField ++ ("::handler::register_".toList ++
      (nameField ++ ("_routes;".toList ++ [])))) := by decide
  rw [Anchor.render, he, render_append (by decide), render_nameField_append,
    render_append (by decide), render_nameField_append, render_append (by decide), render_nil]
  simp [Except.map, importLine]

theorem render_callEntry (marker name : String) :
    (Anchor.mk marker callEntry).render name = .ok (callLine name) := by
  have he : callEntry.toList = callLead ++ (nameField ++ ("_routes(router);".toList ++ [])) := by
    decide
  rw [Anchor.render, he, render_append (by decide), render_nameField_append,
    render_append (by decide), render_nil]
  simp [Except.map, callLine]

theorem lead_import (marker : String) : (Anchor.mk marker importEntry).lead = importLead := by
  change beforeName importEntry.toList = importLead
  decide

theorem lead_call (marker : String) : (Anchor.mk marker callEntry).lead = callLead := by
  change beforeName callEntry.toList = callLead
  decide

end ApiScaffold.Route
