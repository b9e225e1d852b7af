import ApiScaffold.Proofs.Registration.OwnLine
import ApiScaffold.Proofs.Text.Replacement
import Mathlib.Logic.Relation

/-! The search for the place of an entry. It goes on from line to line below the first marker as
long as the text goes on with the shared start, and stands for itself: it ends, and as far on as
such lines go. -/
namespace ApiScaffold.Anchor
open Relation
variable {a : Anchor} {name : String} {entry lead s t t' rest : List Char}

/-- One step of the search, over a line end and the line behind it. The text goes on with the line
end and the shared start; what is behind the line is left. -/
structure Passes (lead s t : List Char) : Prop where
  starts : '\n' :: lead <+: s
  line : ∃ line, '\n' ∉ line ∧ s = '\n' :: line ++ t
  stops : t = [] ∨ t.head? = some '\n'

/-- The search goes on from `s` to `rest` and no further, and nothing is left of a longer run
of such lines. -/
structure EndsAt (lead s rest : List Char) : Prop where
  reached : ReflTransGen (Passes lead) s rest
  stopped : ∀ t, ¬ Passes lead rest t
  furthest : ∀ t, ReflTransGen (Passes lead) s t → rest.length ≤ t.length

theorem Passes.length_lt (h : Passes lead s t) : t.length < s.length := by
  obtain ⟨line, -, rfl⟩ := h.line
  simp only [List.length_append, List.length_cons]
  omega

theorem wellFounded_passes (lead : List Char) : WellFounded fun t s => Passes lead s t :=
  Subrelation.wf (fun h => h.length_lt) (measure List.length).wf

theorem eq_nil_of_stops {line c : List Char} (hline : '\n' ∉ line ++ c)
    (h : c ++ t = [] ∨ (c ++ t).head? = some '\n') : c = [] := by
  cases c with
  | nil => rfl
  | cons d c =>
    obtain rfl : d = '\n' := by simpa using h
    simp at hline

theorem Passes.unique (h : Passes lead s t) (h' : Passes lead s t') : t = t' := by
  obtain ⟨line, hline, rfl⟩ := h.line
  obtain ⟨line', hline', he⟩ := h'.line
  rcases List.append_eq_append_iff.1 (List.cons.inj he).2 with ⟨c, rfl, rfl⟩ | ⟨c, rfl, rfl⟩
  · rw [eq_nil_of_stops hline' h.stops, List.nil_append]
  · rw [eq_nil_of_stops hline h'.stops, List.nil_append]

theorem length_le_of_passes (h : ReflTransGen (Passes lead) s t) : t.length ≤ s.length := by
  induction h with
  | refl => exact le_rfl
  | tail _ hstep ih => exact hstep.length_lt.le.trans ih

theorem endsAt_of_over (hreached : ReflTransGen (Passes lead) s rest)
    (hover : ∀ t, ¬ Passes lead rest t) : EndsAt lead s rest where
  reached := hreached
  stopped := hover
  furthest t ht := by
    rcases ReflTransGen.total_of_right_unique (fun _ _ _ h h' => h.unique h') ht hreached with h | h
    · exact length_le_of_passes h
    · rcases ReflTransGen.cases_head_iff.1 h with rfl | ⟨u, hu, -⟩
      · exact le_rfl
      · exact absurd hu (hover u)

theorem splitBlock_of_starts (h : '\n' :: lead <+: s) :
    ∃ t, Passes lead s t ∧ (splitBlock lead false s).2 = (splitBlock lead false t).2 := by
  obtain ⟨u, rfl⟩ := id h
  obtain ⟨line, lines, -, he, hlines⟩ := Text.exists_lines (lead ++ u)
  rw [List.cons_append, he] at h ⊢
  have hline := hlines line List.mem_cons_self
  refine ⟨Text.following lines, ⟨h, ⟨line, hline, rfl⟩, ?_⟩, ?_⟩
  · cases lines with
    | nil => exact .inl rfl
    | cons l ls => exact .inr rfl
  · rw [splitBlock, if_pos (by simpa using h), splitBlock_line hline, splitBlock_following]

theorem splitBlock_of_not_starts (h : ¬ '\n' :: lead <+: s) :
    splitBlock lead false s = ([], s) := by
  cases s with
  | nil => rfl
  | cons c s => rw [splitBlock, if_neg (by simpa using h)]

/-- A block ends where the search for its end does. -/
theorem endsAt_splitBlock (lead s : List Char) : EndsAt lead s (splitBlock lead false s).2 := by
  induction s using (wellFounded_passes lead).induction with
  | _ s ih =>
    by_cases h : '\n' :: lead <+: s
    · obtain ⟨t, hstep, hrest⟩ := splitBlock_of_starts h
      have hend := ih t hstep
      rw [hrest]
      exact endsAt_of_over (.head hstep hend.reached) hend.stopped
    · rw [splitBlock_of_not_starts h]
      exact endsAt_of_over .refl fun t ht => h ht.starts

/-- Where the first occurrence is does not depend on what follows it. -/
theorem firstBehind_change {old before after : List Char} (h : Text.FirstBehind old before after)
    (after' : List Char) : Text.FirstBehind old before after' := by
  have hcut : Text.cut old (before ++ old) = some (before, []) :=
    Text.cut_eq_some (List.append_nil _).symm fun u v he =>
      h u (v ++ after) (by rw [he, List.append_assoc])
  simpa using Text.firstBehind_of_cut (Text.cut_append hcut after')

theorem insert_eq_error_iff (hr : a.render name = .ok entry) (s : List Char) (f : Failure) :
    a.insert name s = .error f ↔ f = .markerMissing a.marker ∧ ¬ a.marker.toList <:+: s := by
  rw [insert_eq hr, ← place_eq_none_iff]
  cases a.place s with
  | none => simp [eq_comm]
  | some p => simp

/-- An insertion fails only where the marker is missing. Else the text is cut behind the first
marker or, if entries share a start, where the search for the last of them below it ends, and the
entry with a line end is all that is new. The first marker is still where it was. -/
theorem insert_outcome (hr : a.render name = .ok entry) (s : List Char) :
    (∀ f, a.insert name s = .error f ↔ f = .markerMissing a.marker ∧ ¬ a.marker.toList <:+: s) ∧
    (a.marker.toList <:+: s → ∃ before block rest,
      s = before ++ a.marker.toList ++ block ++ rest ∧
      a.insert name s = .ok (before ++ a.marker.toList ++ block ++ '\n' :: entry ++ rest) ∧
      (if a.lead = [] then block = [] else EndsAt a.lead (block ++ rest) rest) ∧
      Text.FirstBehind a.marker.toList before (block ++ rest) ∧
      Text.FirstBehind a.marker.toList before (block ++ '\n' :: entry ++ rest)) := by
  refine ⟨insert_eq_error_iff hr s, fun hs => ?_⟩
  obtain ⟨⟨before, after⟩, hcut⟩ :=
    Option.ne_none_iff_exists'.1 fun hn => Text.cut_eq_none_iff.1 hn hs
  have hblock := a.entriesBelow_append after
  have hfirst := Text.firstBehind_of_cut hcut
  refine ⟨before, (a.entriesBelow after).1, (a.entriesBelow after).2, ?_, ?_, ?_, ?_,
    firstBehind_change hfirst _⟩
  · rw [List.append_assoc _ (a.entriesBelow after).1, hblock]
    exact Text.eq_append_of_cut hcut
  · rw [insert_eq hr, place, hcut]
    rfl
  · rw [hblock, entriesBelow]
    by_cases hlead : a.lead = []
    · simp [hlead]
    · rw [if_neg hlead, if_neg (by simpa using hlead)]
      exact endsAt_splitBlock a.lead after
  · rwa [hblock]

def markedTwice : List Char := "mod x; // here\nuse a;\nuse b;\nlast\n// here\nuse c;".toList

theorem insert_outcome_markedTwice :
    (useAnchor.render "users" = .ok "use users;".toList ∧
      useAnchor.marker.toList <:+: markedTwice) ∧
    (∃ before block rest, markedTwice = before ++ "// here".toList ++ block ++ rest ∧
      useAnchor.insert "users" markedTwice =
        .ok (before ++ "// here".toList ++ block ++ '\n' :: "use users;".toList ++ rest) ∧
      EndsAt "use ".toList (block ++ rest) rest ∧
      Text.FirstBehind "// here".toList before (block ++ rest) ∧
      Text.FirstBehind "// here".toList before (block ++ '\n' :: "use users;".toList ++ rest)) ∧
    useAnchor.insert "users" "mod x;".toList = .error (.markerMissing "// here") := by
  have hmarked : useAnchor.marker.toList <:+: markedTwice := by decide
  have hmissing : ¬ useAnchor.marker.toList <:+: "mod x;".toList := by decide
  exact ⟨⟨render_useAnchor, hmarked⟩, (insert_outcome render_useAnchor markedTwice).2 hmarked,
    ((insert_outcome render_useAnchor "mod x;".toList).1 _).2 ⟨rfl, hmissing⟩⟩

end ApiScaffold.Anchor
