import ApiScaffold.Proofs.Registration.Block
import ApiScaffold.Proofs.Registration.Lead

/-! Entries are recognised by the start that they share. For an anchor with a plain start every
entry has it, and the next one is put behind it. For any other the entry for a name that stands
out does not have it, and the next one is put in front, so that entries come to stand in the
opposite order. -/
namespace ApiScaffold.Anchor
open EntryTemplate
variable {a : Anchor} {name name' : String} {entry entry' before after : List Char}

/-- An entry directly below the first marker is recognised: the next one is put behind its first
line. -/
def KeepsOrder (a : Anchor) (entry : List Char) : Prop :=
  ∀ before after name' entry', Text.FirstBehind a.marker.toList before ('\n' :: (entry ++ after)) →
    a.render name' = .ok entry' → ∃ passed rest, entry ++ after = passed ++ rest ∧
      entry.takeWhile (· ≠ '\n') <+: passed ∧
      a.insert name' (before ++ a.marker.toList ++ '\n' :: (entry ++ after)) =
        .ok (before ++ a.marker.toList ++ '\n' :: (passed ++ '\n' :: (entry' ++ rest)))

/-- An entry directly below the first marker is not recognised: the next one is put in front of it.
What follows a shorter one might make it look like one with the shared start. -/
def TurnsOrder (a : Anchor) (entry : List Char) : Prop :=
  ∀ before after name' entry', after = [] ∨ a.lead.length ≤ entry.length →
    Text.FirstBehind a.marker.toList before ('\n' :: (entry ++ after)) → a.render name' =
      .ok entry' → a.insert name' (before ++ a.marker.toList ++ '\n' :: (entry ++ after)) =
        .ok (before ++ a.marker.toList ++ '\n' :: (entry' ++ '\n' :: (entry ++ after)))

/-- Below the first marker an entry is put behind those that stand there already. -/
theorem insert_below (h : Text.FirstBehind a.marker.toList before after)
    (hr : a.render name = .ok entry) :
    a.insert name (before ++ a.marker.toList ++ after) = .ok (before ++ a.marker.toList ++
      (a.entriesBelow after).1 ++ '\n' :: entry ++ (a.entriesBelow after).2) := by
  rw [insert, Text.cut_eq_some rfl h]
  simp only [hr]

theorem keepsOrder_of_starts (hlead : a.lead ≠ []) (h : a.lead <+: entry) : a.KeepsOrder entry := by
  intro before after name' entry' hfirst hr
  have hstart : '\n' :: a.lead <+: '\n' :: (entry ++ after) :=
    List.cons_prefix_cons.2 ⟨rfl, h.trans (List.prefix_append entry after)⟩
  obtain ⟨t, hstep, hrest⟩ := splitBlock_of_starts hstart
  obtain ⟨line, -, hsplit⟩ := hstep.line
  have hbehind : entry ++ after = line ++ t := (List.cons.inj hsplit).2
  have hblock := splitBlock_append a.lead false t
  have hwhole := splitBlock_append a.lead false ('\n' :: (entry ++ after))
  have htext : entry ++ after = line ++ (splitBlock a.lead false t).1 ++
      (splitBlock a.lead false t).2 := by
    rw [List.append_assoc, hblock, hbehind]
  have hbelow : a.entriesBelow ('\n' :: (entry ++ after)) =
      ('\n' :: (line ++ (splitBlock a.lead false t).1), (splitBlock a.lead false t).2) := by
    rw [entriesBelow, if_neg (by simpa using hlead)]
    refine Prod.ext ?_ hrest
    rw [hrest] at hwhole
    exact List.append_cancel_right (hwhole.trans (congrArg ('\n' :: ·) htext))
  refine ⟨line ++ (splitBlock a.lead false t).1, (splitBlock a.lead false t).2, htext, ?_, ?_⟩
  · have hfirstLine : entry.takeWhile (· ≠ '\n') <+: line ++ t := by
      rw [← hbehind]
      exact ( List.takeWhile_prefix _).trans (List.prefix_append entry after)
    have hnone : '\n' ∉ entry.takeWhile (· ≠ '\n') :=
      fun hmem => by simpa using List.mem_takeWhile_imp hmem
    refine List.IsPrefix.trans ?_ (List.prefix_append line _)
    rcases hstep.stops with rfl | hhead
    · rwa [List.append_nil] at hfirstLine
    · obtain ⟨t, rfl⟩ := List.head?_eq_some_iff.1 hhead
      exact Text.prefix_of_prefix_append_cons hnone hfirstLine
  · rw [insert_below hfirst hr, hbelow]
    simp

theorem turnsOrder_of_not_starts (h : ¬ a.lead <+: entry) : a.TurnsOrder entry := by
  intro before after name' entry' hafter hfirst hr
  have hstart : ¬ '\n' :: a.lead <+: '\n' :: (entry ++ after) := by
    rw [List.cons_prefix_cons, not_and]
    intro _ hp
    rcases hafter with rfl | hlength
    · exact h (by rwa [List.append_nil] at hp)
    · exact h (List.prefix_of_prefix_length_le hp (List.prefix_append entry after) hlength)
  have hbelow : a.entriesBelow ('\n' :: (entry ++ after)) = ([], '\n' :: (entry ++ after)) := by
    unfold entriesBelow
    split_ifs
    · rfl
    · exact splitBlock_of_not_starts hstart
  rw [insert_below hfirst hr, hbelow]
  simp

/-- A name that stands out from a start. It opens no brace, not all that is behind its first
character may be marks, and the start does not have that character. -/
structure StandsOut (lead name : List Char) : Prop where
  braceless : '{' ∉ name
  unread : NoMark name
  unlike : ∀ c ∈ name.head?, c ∉ lead

/-- A plain start is one of every entry that can be rendered, and entries below the marker are
recognised by it. Any other start is not one of the entry for a name that stands out, so that the
next entry comes to stand in front. -/
theorem lead_outcome (hr : a.render name = .ok entry) :
    (Plain a.lead → a.lead <+: entry ∧ (a.lead ≠ [] → a.KeepsOrder entry)) ∧
    (¬ Plain a.lead → StandsOut a.lead name.toList → ¬ a.lead <+: entry ∧ a.TurnsOrder entry) := by
  have hfilled : Filled name.toList 1 a.entry.toList entry := filled_of_fill hr
  refine ⟨fun hplain => ?_, fun hplain hout => ?_⟩
  · have hp : a.lead <+: entry := prefix_of_filled_of_plain hfilled hplain
    exact ⟨hp, fun hlead => keepsOrder_of_starts hlead hp⟩
  · have hclear : Clear name.toList a.lead :=
      ⟨not_nameField_infix_beforeName a.entry.toList, hout.unlike⟩
    have hp : ¬ a.lead <+: entry :=
      missing_of_filled hout.braceless hout.unread hfilled [] (fun h => absurd h hplain) hclear
    exact ⟨hp, turnsOrder_of_not_starts hp⟩

def bracedAnchor : Anchor := ⟨"// m", "\x7b\x7bx\x7d\x7d \x7bname\x7d"⟩

theorem render_bracedAnchor (name : String) :
    bracedAnchor.render name = .ok ("\x7bx\x7d ".toList ++ name.toList) := by
  have hentry : bracedAnchor.entry.toList =
      '{' :: '{' :: 'x' :: '}' :: '}' :: ' ' :: (nameField ++ []) := by
    decide
  rw [render, hentry, render_doubled (by decide), render_cons (by decide),
    render_doubled (by decide), render_cons (by decide), render_nameField_append, render_nil]
  simp [Except.map]

theorem lead_bracedAnchor : bracedAnchor.lead = "\x7b\x7bx\x7d\x7d ".toList := by
  decide

/-- Doubled braces in front of the name are single ones in the entry, which does not have the shared
start then. The entry for another name comes to stand in front of it. -/
theorem not_forall_lead_starts :
    (¬ ∀ (a : Anchor) (name : String) (entry : List Char),
      a.render name = .ok entry → a.lead <+: entry) ∧
    bracedAnchor.insert "b" "// m\n\x7bx\x7d a\n".toList =
      .ok "// m\n\x7bx\x7d b\n\x7bx\x7d a\n".toList := by
  refine ⟨fun h => ?_, ?_⟩
  · have hp := h bracedAnchor "a" _ (render_bracedAnchor "a")
    rw [lead_bracedAnchor] at hp
    exact absurd hp (by decide)
  · rw [insert, render_bracedAnchor]
    decide

/-- Below an anchor with a plain start and below one with braces in front of the name. -/
theorem lead_outcome_users :
    (useAnchor.render "users" = .ok "use users;".toList ∧
      Plain useAnchor.lead ∧ useAnchor.lead ≠ []) ∧
    (useAnchor.lead <+: "use users;".toList ∧ useAnchor.KeepsOrder "use users;".toList) ∧
    (bracedAnchor.render "users" = .ok ("\x7bx\x7d ".toList ++ "users".toList) ∧
      ¬ Plain bracedAnchor.lead ∧ StandsOut bracedAnchor.lead "users".toList) ∧
    ¬ bracedAnchor.lead <+: "\x7bx\x7d ".toList ++ "users".toList ∧
      bracedAnchor.TurnsOrder ("\x7bx\x7d ".toList ++ "users".toList) := by
  have hplain : Plain useAnchor.lead := ⟨by decide, by decide⟩
  have hlead : useAnchor.lead ≠ [] := by decide
  have hbraces : ¬ Plain bracedAnchor.lead := fun h => absurd h.1 (by decide)
  have hout : StandsOut bracedAnchor.lead "users".toList := by
    refine ⟨by decide, ⟨'e', by decide, by decide⟩, fun c hc => ?_⟩
    obtain rfl : 'u' = c := Option.some.inj hc
    decide
  have hkept := (lead_outcome render_useAnchor).1 hplain
  exact ⟨⟨render_useAnchor, hplain, hlead⟩, ⟨hkept.1, hkept.2 hlead⟩,
    ⟨render_bracedAnchor "users", hbraces, hout⟩,
    (lead_outcome (render_bracedAnchor "users")).2 hbraces hout⟩

end ApiScaffold.Anchor
