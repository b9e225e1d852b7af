import ApiScaffold.Proofs.Registration.Place
import ApiScaffold.Proofs.Text.Insertion

/-! Insertions seen on lines: an entry is a line below the one that holds the marker, after the
entries that follow it there. This takes a marker that stands alone on its line. -/
namespace ApiScaffold.Anchor
variable {a : Anchor} {s : List Char} {lines above below new : List (List Char)}
  {indent : List Char}

/-- The marker starts a comment of one line, and the entries share the start of a line. -/
structure IsComment (a : Anchor) : Prop where
  marker : '\n' ∉ a.marker.toList
  slash : a.marker.toList.head? = some '/'
  lead : '\n' ∉ a.lead
  shared : a.lead ≠ []

/-- The first line that holds the marker has nothing else but spaces and tabs in front of it. -/
def StandsAlone (a : Anchor) (lines : List (List Char)) : Prop :=
  ∃ indent, lines.find? (Text.occurs a.marker.toList) = some (indent ++ a.marker.toList) ∧
    ∀ c ∈ indent, c = ' ' ∨ c = '\t'

/-- The first occurrence of the marker in a text stands alone on its line: only spaces and tabs are
in front of it there, and a line feed or the end of the text is behind it. -/
def AloneIn (a : Anchor) (s : List Char) : Prop :=
  ∃ before indent after, Text.cut a.marker.toList s = some (before ++ indent, after) ∧
    (before = [] ∨ before.getLast? = some '\n') ∧ (∀ c ∈ indent, c = ' ' ∨ c = '\t') ∧
    (after = [] ∨ after.head? = some '\n')

def addBelow (a : Anchor) (new lines : List (List Char)) : List (List Char) :=
  Text.insertBelow (Text.occurs a.marker.toList) a.lead.isPrefixOf new lines

theorem not_mem_indent {c : Char} (h : ∀ c ∈ indent, c = ' ' ∨ c = '\t')
    (hc : c ≠ ' ' ∧ c ≠ '\t') : c ∉ indent :=
  fun hm => (h c hm).elim hc.1 hc.2

theorem cut_indented (ha : a.IsComment)
    (hindent : ∀ c ∈ indent, c = ' ' ∨ c = '\t') (t : List Char) :
    Text.cut a.marker.toList (indent ++ (a.marker.toList ++ t)) = some (indent, t) := by
  rw [Text.cut_append_of_forall, Text.cut_append_self]
  · simp
  · rintro u v rfl hv hp
    have hslash := ha.slash
    cases v with
    | nil => exact hv rfl
    | cons c v =>
      cases hm : a.marker.toList with
      | nil => simp [hm] at hslash
      | cons d m =>
        rw [hm, List.cons_append] at hp
        obtain ⟨rfl, -⟩ := List.cons_prefix_cons.1 hp
        obtain rfl : d = '/' := by simpa [hm] using hslash
        exact not_mem_indent hindent (by decide : '/' ≠ ' ' ∧ '/' ≠ '\t') (by simp)

theorem cut_lines (ha : a.IsComment) (habove : ∀ l ∈ above, ¬ a.marker.toList <:+: l)
    (t : List Char) : Text.cut a.marker.toList (Text.ended above ++ t) =
      (Text.cut a.marker.toList t).map fun (before, after) => (Text.ended above ++ before, after) :=
  Text.cut_flatMap (List.cons_ne_nil _ _) (by simpa using ha.marker) habove t

theorem place_lines (ha : a.IsComment) (habove : ∀ l ∈ above, ¬ a.marker.toList <:+: l)
    (hindent : ∀ c ∈ indent, c = ' ' ∨ c = '\t') (hbelow : ∀ l ∈ below, '\n' ∉ l) :
    a.place (Text.ended above ++ (indent ++ a.marker.toList ++ Text.following below)) =
      some (Text.ended above ++
        (indent ++ a.marker.toList ++ Text.following (below.takeWhile a.lead.isPrefixOf)),
        Text.following (below.dropWhile a.lead.isPrefixOf)) := by
  have hentries : a.entriesBelow (Text.following below) =
      (Text.following (below.takeWhile a.lead.isPrefixOf),
      Text.following (below.dropWhile a.lead.isPrefixOf)) := by
    unfold entriesBelow
    rw [if_neg (by simp [ha.shared]), splitBlock_lines ha.lead hbelow]
  rw [place, cut_lines ha habove, List.append_assoc indent, cut_indented ha hindent]
  simp [hentries]

/-- An insertion puts a line below the marker, behind the entries that stand there. -/
theorem insert_lines (ha : a.IsComment) {name : String}
    {entry : List Char} (hr : a.render name = .ok entry)
    (he : '\n' ∉ entry) (hs : a.StandsAlone (Text.segments '\n' s)) : ∃ t, a.insert name s = .ok t ∧
      Text.segments '\n' t = a.addBelow [entry] (Text.segments '\n' s) := by
  obtain ⟨indent, hfind, hindent⟩ := hs
  obtain ⟨hmark, above, below, hseg, hnone⟩ := List.find?_eq_some_iff_append.1 hfind
  have hn : ∀ l ∈ above ++ (indent ++ a.marker.toList) :: below, '\n' ∉ l := by
    intro l hl
    exact Text.not_mem_of_mem_segments (hseg ▸ hl)
  have habove : ∀ l ∈ above, ¬ a.marker.toList <:+: l := by
    intro l hl
    rw [← Text.occurs_eq_false_iff]
    simpa using hnone l hl
  have hbelow : ∀ l ∈ below, '\n' ∉ l := fun l hl => hn l (by simp [hl])
  have hplace := place_lines ha habove hindent hbelow
  rw [← Text.eq_of_segments hseg] at hplace
  have hput :
      ∀ l ∈ above ++ (indent ++ a.marker.toList) :: Text.extendRun a.lead.isPrefixOf [entry] below,
      '\n' ∉ l := by
    intro l hl
    simp only [Text.extendRun, List.mem_append, List.mem_cons, List.not_mem_nil, or_false] at hl
    rcases hl with hl | rfl | hl | rfl | hl
    · exact hn l (by simp [hl])
    · exact hn _ (by simp)
    · exact hbelow l ((List.takeWhile_sublist _).mem hl)
    · exact he
    · exact hbelow l ((List.dropWhile_sublist _).mem hl)
  rw [insert_eq hr, hplace]
  refine ⟨_, rfl, ?_⟩
  have habove' : ∀ l ∈ above, Text.occurs a.marker.toList l = false :=
    fun l hl => Text.occurs_eq_false_iff.2 (habove l hl)
  rw [addBelow, hseg, Text.insertBelow_append_cons _ _ habove' hmark, ← Text.segments_ended hput]
  congr 1
  simp [putAt, Text.extendRun]

theorem AloneIn.standsAlone (ha : a.IsComment) (h : a.AloneIn s) :
    a.StandsAlone (Text.segments '\n' s) := by
  obtain ⟨before, indent, after, hcut, hbefore, hindent, hafter⟩ := h
  obtain ⟨above, rfl, habove⟩ := Text.exists_ended hbefore
  obtain ⟨below, rfl, hbelow⟩ := Text.exists_following hafter
  have hs := Text.eq_append_of_cut hcut
  have hslash := ha.slash
  have hn : ∀ l ∈ above ++ (indent ++ a.marker.toList) :: below, '\n' ∉ l := by
    intro l hl
    rcases List.mem_append.1 hl with hl | hl
    · exact habove l hl
    · rcases List.mem_cons.1 hl with rfl | hl
      · simp only [List.mem_append, not_or]
        exact ⟨not_mem_indent hindent (by decide), ha.marker⟩
      · exact hbelow l hl
  have hseg : Text.segments '\n' s = above ++ (indent ++ a.marker.toList) :: below := by
    rw [hs, ← Text.segments_ended hn]
    simp
  refine ⟨indent, ?_, hindent⟩
  rw [hseg, List.find?_eq_some_iff_append]
  refine ⟨Text.occurs_iff.2 (List.suffix_append _ _).isInfix, above, below, rfl, fun l hl => ?_⟩
  rw [Bool.not_eq_true', Text.occurs_eq_false_iff]
  have hne : a.marker.toList ≠ [] := by
    intro h0
    simp [h0] at hslash
  -- an occurrence in a line above would come before the first one
  exact fun hm =>
    Text.not_infix_of_cut hcut hne
      ((hm.trans (Text.infix_ended hl)).trans (List.prefix_append _ indent).isInfix)

theorem StandsAlone.present (ha : a.IsComment) (h : a.StandsAlone (Text.segments '\n' s)) :
    a.marker.toList <:+: s := by
  obtain ⟨indent, hfind, -⟩ := h
  rw [Text.infix_iff_exists_line ha.marker]
  exact ⟨_, List.mem_of_find?_eq_some hfind, (List.suffix_append _ _).isInfix⟩

/-- A marker keeps standing alone if the new lines, below whichever marker, do not hold it. -/
theorem StandsAlone.addBelow (b : Anchor) (h : a.StandsAlone lines)
    (hnew : ∀ l ∈ new, ¬ a.marker.toList <:+: l) : a.StandsAlone (b.addBelow new lines) := by
  obtain ⟨indent, hfind, hindent⟩ := h
  exact ⟨indent, Text.find?_insertBelow hfind fun l hl => Text.occurs_eq_false_iff.2 (hnew l hl),
    hindent⟩

/-- New entries have the start that the entries share, so those of a later insertion follow them. -/
theorem addBelow_addBelow {new' : List (List Char)} (h : ∀ l ∈ new, a.lead <+: l) :
    a.addBelow new' (a.addBelow new lines) = a.addBelow (new ++ new') lines :=
  Text.insertBelow_insertBelow fun l hl => List.isPrefixOf_iff_prefix.2 (h l hl)

end ApiScaffold.Anchor
