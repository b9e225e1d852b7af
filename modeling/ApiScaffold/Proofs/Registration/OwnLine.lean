import ApiScaffold.Proofs.Registration.Place

/-! Entries on lines of their own. An insertion adds one line and leaves all others as they are just
where the first marker ends its line. Anywhere else what follows the marker on its line comes to
stand behind the entry. -/
namespace ApiScaffold.Anchor
variable {a : Anchor} {name : String} {entry s t x y before after : List Char}

/-- The first occurrence of the marker ends its line. -/
def EndsLine (a : Anchor) (s : List Char) : Prop :=
  ∃ before after, Text.cut a.marker.toList s = some (before, after) ∧
    (after = [] ∨ after.head? = some '\n')

/-- The lines of the new text are those of the old one and the entry as one line more, somewhere
below the first line that holds the marker. -/
def AddsLine (a : Anchor) (entry s t : List Char) : Prop :=
  ∃ above below, Text.segments '\n' s = above ++ below ∧
    Text.segments '\n' t = above ++ entry :: below ∧ ∃ line ∈ above, a.marker.toList <:+: line

/-- The first line that holds the marker is broken behind it, and what stood there follows the
entry on its line. -/
def BreaksLine (a : Anchor) (entry s t : List Char) : Prop :=
  ∃ above front rest below, rest ≠ [] ∧ a.marker.toList <:+ front ∧
    (∀ line ∈ above, ¬ a.marker.toList <:+: line) ∧
    Text.segments '\n' s = above ++ (front ++ rest) :: below ∧
    Text.segments '\n' t = above ++ front :: (entry ++ rest) :: below

/-- Where the marker ends its line the entries that follow it are whole lines, so the next one is
too. -/
theorem EndsLine.place (h : a.EndsLine s) (hp : a.place s = some (x, y)) :
    a.marker.toList <:+: x ∧ (y = [] ∨ y.head? = some '\n') := by
  obtain ⟨before, after, hcut, hafter⟩ := h
  obtain ⟨rfl, before', after', block, hcut', rfl, hblock⟩ := place_eq_some hp
  obtain ⟨rfl, rfl⟩ := Prod.mk.inj (Option.some.inj (hcut.symm.trans hcut'))
  refine ⟨List.infix_append before _ block, ?_⟩
  rcases hblock with rfl | hy
  · have hs := Text.eq_append_of_cut hcut
    rw [List.append_nil] at hs
    obtain rfl := List.append_cancel_left hs
    exact hafter
  · exact hy

theorem addsLine_putAt (hm : '\n' ∉ a.marker.toList)
    (he : '\n' ∉ entry) (hx : a.marker.toList <:+: x) (hy : y = [] ∨ y.head? = some '\n') :
    a.AddsLine entry (x ++ y) (putAt (x, y) entry) := by
  obtain ⟨lines, rfl, hlines⟩ := Text.exists_following hy
  refine ⟨Text.segments '\n' x, lines, Text.segments_append_following x hlines, ?_,
    (Text.infix_iff_exists_line hm).1 hx⟩
  have hput : putAt (x, Text.following lines) entry = x ++ Text.following (entry :: lines) := by
    simp [putAt]
  rw [hput, Text.segments_append_following]
  intro l hl
  rcases List.mem_cons.1 hl with rfl | hl
  · exact he
  · exact hlines l hl

theorem exists_line_around (before : List Char)
    (hafter : after ≠ []) (hhead : after.head? ≠ some '\n') : ∃ above front rest below,
      before = Text.ended above ++ front ∧ after = rest ++ Text.following below ∧ rest ≠ [] ∧
      (∀ line ∈ above, '\n' ∉ line) ∧ '\n' ∉ front ∧ '\n' ∉ rest ∧ ∀ line ∈ below, '\n' ∉ line := by
  obtain ⟨rest, below, -, rfl, hbelow⟩ := Text.exists_lines after
  obtain ⟨line, lines, hseg, -, hbefore⟩ := Text.exists_lines before
  obtain ⟨above, front, hlast⟩ : ∃ above front, line :: lines = above ++ [front] :=
    ⟨_, _, (List.dropLast_append_getLast (List.cons_ne_nil line lines)).symm⟩
  rw [hlast, List.forall_mem_append, List.forall_mem_singleton] at hbefore
  rw [List.forall_mem_cons] at hbelow
  have hrest : rest ≠ [] := by
    rintro rfl
    cases below with
    | nil => exact hafter rfl
    | cons l ls => simp at hhead
  refine ⟨above, front, rest, below, ?_, rfl, hrest, hbefore.1, hbefore.2, hbelow⟩
  simpa using Text.eq_of_segments (hseg.trans hlast)

/-- Where the marker does not end its line the entry is put in front of the rest of that line. -/
theorem breaksLine_putAt (hm : '\n' ∉ a.marker.toList) (hne : a.marker.toList ≠ [])
    (he : '\n' ∉ entry) (hcut : Text.cut a.marker.toList s = some (before, after))
    (hafter : after ≠ []) (hhead : after.head? ≠ some '\n') :
    a.BreaksLine entry s (putAt (before ++ a.marker.toList, after) entry) := by
  obtain ⟨above, front, rest, below, rfl, rfl, hrest, habove, hfront, hstart, hbelow⟩ :=
    exists_line_around before hafter hhead
  refine ⟨above, front ++ a.marker.toList, rest, below, hrest, List.suffix_append _ _,
    fun l hl hin => ?_, ?_, ?_⟩
  · exact Text.not_infix_of_cut hcut hne
      ((hin.trans (Text.infix_ended hl)).trans (List.prefix_append _ _).isInfix)
  · have hlines : ∀ line ∈ above ++ (front ++ a.marker.toList ++ rest) :: below, '\n' ∉ line := by
      rw [List.forall_mem_append, List.forall_mem_cons]
      exact ⟨habove, by simp [hfront, hm, hstart], hbelow⟩
    rw [Text.eq_append_of_cut hcut, ← Text.segments_ended hlines]
    simp
  · have hlines : ∀ line ∈ above ++ (front ++ a.marker.toList) :: (entry ++ rest) :: below,
        '\n' ∉ line := by
      rw [List.forall_mem_append, List.forall_mem_cons, List.forall_mem_cons]
      exact ⟨habove, by simp [hfront, hm], by simp [he, hstart], hbelow⟩
    rw [← Text.segments_ended hlines]
    simp [putAt]

theorem BreaksLine.not_addsLine (h : a.BreaksLine entry s t) : ¬ a.AddsLine entry s t := by
  obtain ⟨above, front, rest, below, hrest, -, habove, hs, ht⟩ := h
  rintro ⟨above', below', hs', ht', line, hline, hin⟩
  rw [hs] at hs'
  rw [ht] at ht'
  rcases List.append_eq_append_iff.1 hs' with ⟨c, rfl, hc⟩ | ⟨c, rfl, -⟩
  · cases c with
    | nil => exact habove line (by simpa using hline) hin
    | cons l c =>
      obtain ⟨rfl, -⟩ := List.cons.inj hc
      rw [List.append_assoc, List.append_cancel_left_eq, List.cons_append, List.cons.injEq] at ht'
      exact hrest (List.self_eq_append_right.1 ht'.1)
  · exact habove line (List.mem_append_left c hline) hin

/-- An entry of one line is inserted wherever a marker of one line is. It is one line more, and no
other line changes, if the first marker ends its line, and only then; else that line is broken. -/
theorem addsLine_iff (hm : '\n' ∉ a.marker.toList)
    (hne : a.marker ≠ "") (hr : a.render name = .ok entry)
    (he : '\n' ∉ entry) (hs : a.marker.toList <:+: s) : ∃ t, a.insert name s = .ok t ∧
      (a.AddsLine entry s t ↔ a.EndsLine s) ∧ (¬ a.EndsLine s → a.BreaksLine entry s t) := by
  obtain ⟨⟨x, y⟩, hp⟩ := exists_place hs
  refine ⟨putAt (x, y) entry, by rw [insert_eq hr, hp], ?_⟩
  by_cases hends : a.EndsLine s
  · obtain ⟨hx, hy⟩ := hends.place hp
    obtain ⟨rfl, -⟩ := place_eq_some hp
    exact ⟨iff_of_true (addsLine_putAt hm he hx hy) hends, fun hno => absurd hends hno⟩
  · obtain ⟨⟨before, after⟩, hcut⟩ :=
      Option.ne_none_iff_exists'.1 fun hn => Text.cut_eq_none_iff.1 hn hs
    have hafter : after ≠ [] := fun h => hends ⟨before, after, hcut, .inl h⟩
    have hhead : after.head? ≠ some '\n' := fun h => hends ⟨before, after, hcut, .inr h⟩
    have hmarker : a.marker.toList ≠ [] := by simpa using hne
    obtain ⟨rfl, rfl⟩ := Prod.mk.inj (Option.some.inj ((place_of_cut hcut hhead).symm.trans hp))
    have hbreaks := breaksLine_putAt hm hmarker he hcut hafter hhead
    exact ⟨iff_of_false hbreaks.not_addsLine hends, fun _ => hbreaks⟩

def useAnchor : Anchor := ⟨"// here", "use \x7bname\x7d;"⟩

theorem render_useAnchor : useAnchor.render "users" = .ok "use users;".toList := by
  have hentry : useAnchor.entry.toList = "use ".toList ++
      (EntryTemplate.nameField ++ (";".toList ++ [])) := by
    decide
  rw [Anchor.render, hentry, EntryTemplate.render_append (by decide),
    EntryTemplate.render_nameField_append,
    EntryTemplate.render_append (by decide), EntryTemplate.render_nil]
  rfl

/-- Below a marker that ends its line, with an entry made before, and in a text whose lines end with
carriage returns as well. -/
theorem addsLine_iff_here :
    ('\n' ∉ useAnchor.marker.toList ∧ useAnchor.marker ≠ "" ∧
      useAnchor.render "users" = .ok "use users;".toList ∧
      '\n' ∉ "use users;".toList ∧ useAnchor.marker.toList <:+: "// here\nuse a;\nlast".toList ∧
      useAnchor.marker.toList <:+: "// here\r\nlast".toList) ∧
    (∃ t, useAnchor.insert "users" "// here\nuse a;\nlast".toList = .ok t ∧
      useAnchor.AddsLine "use users;".toList "// here\nuse a;\nlast".toList t) ∧
    ∃ t, useAnchor.insert "users" "// here\r\nlast".toList = .ok t ∧
      useAnchor.BreaksLine "use users;".toList "// here\r\nlast".toList t := by
  have hplain : useAnchor.marker.toList <:+: "// here\nuse a;\nlast".toList := by decide
  have hreturn : useAnchor.marker.toList <:+: "// here\r\nlast".toList := by decide
  have hends : useAnchor.EndsLine "// here\nuse a;\nlast".toList :=
    ⟨[], "\nuse a;\nlast".toList, by decide, .inr (by decide)⟩
  have hnot : ¬ useAnchor.EndsLine "// here\r\nlast".toList := by
    rintro ⟨before, after, hcut, hafter⟩
    have hfirst : Text.cut useAnchor.marker.toList "// here\r\nlast".toList =
        some ([], "\r\nlast".toList) := by
      decide
    obtain ⟨rfl, rfl⟩ := Prod.mk.inj (Option.some.inj (hfirst.symm.trans hcut))
    revert hafter
    decide
  obtain ⟨t, ht, hadds, -⟩ :=
    addsLine_iff (by decide) (by decide) render_useAnchor (by decide) hplain
  obtain ⟨u, hu, -, hbreaks⟩ :=
    addsLine_iff (by decide) (by decide) render_useAnchor (by decide) hreturn
  exact ⟨⟨by decide, by decide, render_useAnchor, by decide, hplain, hreturn⟩,
    ⟨t, ht, hadds.2 hends⟩, u, hu, hbreaks hnot⟩

/-- Not every entry gets a line of its own: behind this marker its line goes on. -/
theorem not_forall_addsLine :
    ¬ ∀ (a : Anchor) (name : String) (entry s : List Char), '\n' ∉ a.marker.toList →
    a.marker ≠ "" → a.render name = .ok entry → '\n' ∉ entry → a.marker.toList <:+: s →
    ∃ t, a.insert name s = .ok t ∧ a.AddsLine entry s t := by
  intro h
  obtain ⟨t, ht, hadds⟩ :=
    h useAnchor "users" "use users;".toList "// here next\n".toList (by decide) (by decide)
    render_useAnchor (by decide) (by decide)
  have hcut : Text.cut useAnchor.marker.toList "// here next\n".toList =
      some ([], " next\n".toList) := by
    decide
  rw [insert_eq render_useAnchor, place_of_cut hcut (by decide)] at ht
  obtain rfl := Except.ok.inj ht
  exact (breaksLine_putAt (by decide) (by decide) (by decide) hcut (by decide)
    (by decide)).not_addsLine hadds

end ApiScaffold.Anchor
