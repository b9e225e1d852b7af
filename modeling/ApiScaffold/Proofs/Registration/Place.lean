import ApiScaffold.Proofs.Registration.Entry
import ApiScaffold.Proofs.Text.Segments

/-! Where the next entry goes: below the first marker and the entries that stand there already. An
insertion is a line put at that place, and the entries there are the lines with the shared start
that follow the marker. -/
namespace ApiScaffold.Anchor

/-- The text in front of the next entry and the text behind it. -/
def place (a : Anchor) (s : List Char) : Option (List Char × List Char) :=
  (Text.cut a.marker.toList s).map fun (before, after) =>
    (before ++ a.marker.toList ++ (a.entriesBelow after).1, (a.entriesBelow after).2)

def putAt (place : List Char × List Char) (entry : List Char) : List Char :=
  place.1 ++ '\n' :: entry ++ place.2

theorem insert_eq {a : Anchor} {name : String} {entry : List Char} (hr : a.render name = .ok entry)
    (s : List Char) : a.insert name s = match a.place s with
      | none => .error (.markerMissing a.marker)
      | some p => .ok (putAt p entry) := by
  rw [insert, place]
  cases Text.cut a.marker.toList s with
  | none => rfl
  | some p => simp [hr, putAt]

theorem place_eq_none_iff {a : Anchor} {s : List Char} :
    a.place s = none ↔ ¬ a.marker.toList <:+: s := by
  rw [place, Option.map_eq_none_iff, Text.cut_eq_none_iff]

theorem exists_place {a : Anchor} {s : List Char} (h : a.marker.toList <:+: s) :
    ∃ p, a.place s = some p :=
  Option.ne_none_iff_exists'.1 fun hn => place_eq_none_iff.1 hn h

theorem marker_infix {a : Anchor} {s : List Char} {p : List Char × List Char}
    (h : a.place s = some p) : a.marker.toList <:+: s := by
  by_contra hno
  rw [place_eq_none_iff.2 hno] at h
  cases h

theorem entriesBelow_append (a : Anchor) (s : List Char) :
    (a.entriesBelow s).1 ++ (a.entriesBelow s).2 = s := by
  unfold entriesBelow
  split
  · rfl
  · exact splitBlock_append _ _ _

/-- A block goes on to the end of a line: behind it the text ends or a line feed stands. -/
theorem splitBlock_stop (lead : List Char) (inside : Bool) (s : List Char) :
    (inside = false ∧ (splitBlock lead inside s).1 = []) ∨ (splitBlock lead inside s).2 = [] ∨
      (splitBlock lead inside s).2.head? = some '\n' := by
  induction s generalizing inside with
  | nil => simp [splitBlock]
  | cons c rest ih =>
    rw [splitBlock]
    split
    · rcases ih true with ⟨h, -⟩ | h
      · cases h
      · exact .inr h
    · rename_i h
      simp only [Bool.or_eq_true, Bool.and_eq_true, decide_eq_true_eq, not_or, not_and] at h
      by_cases hi : inside = true
      · have hc : c = '\n' := by simpa using h.1 hi
        exact .inr (.inr (by simp [hc]))
      · exact .inl ⟨by simpa using hi, rfl⟩

theorem entriesBelow_stop (a : Anchor) (s : List Char) : (a.entriesBelow s).1 = [] ∨
    (a.entriesBelow s).2 = [] ∨ (a.entriesBelow s).2.head? = some '\n' := by
  unfold entriesBelow
  split
  · exact .inl rfl
  · exact (splitBlock_stop a.lead false s).imp_left And.right

theorem entriesBelow_of_head_ne (a : Anchor) {s : List Char} (h : s.head? ≠ some '\n') :
    a.entriesBelow s = ([], s) := by
  unfold entriesBelow
  split
  · rfl
  · cases s with
    | nil => rfl
    | cons c rest =>
      have hc : c ≠ '\n' := by simpa using h
      rw [splitBlock, if_neg]
      simp [Ne.symm hc]

/-- Behind a marker that does not end its line the next entry stands at once. -/
theorem place_of_cut {a : Anchor} {s before after : List Char}
    (h : Text.cut a.marker.toList s = some (before, after))
    (hn : after.head? ≠ some '\n') : a.place s = some (before ++ a.marker.toList, after) := by
  rw [place, h, Option.map_some]
  simp only [a.entriesBelow_of_head_ne hn, List.append_nil]

/-- The place splits the text behind the first marker, at the marker's end or at the end of a
line. -/
theorem place_eq_some {a : Anchor} {s x y : List Char} (h : a.place s = some (x, y)) :
    s = x ++ y ∧ ∃ before after block, Text.cut a.marker.toList s = some (before, after) ∧
      x = before ++ a.marker.toList ++ block ∧ (block = [] ∨ y = [] ∨ y.head? = some '\n') := by
  obtain ⟨⟨before, after⟩, hcut, he⟩ := Option.map_eq_some_iff.1 h
  obtain ⟨rfl, rfl⟩ := Prod.mk.inj he
  refine ⟨?_, before, after, _, hcut, rfl, a.entriesBelow_stop after⟩
  rw [List.append_assoc _ (a.entriesBelow after).1, entriesBelow_append]
  exact Text.eq_append_of_cut hcut

theorem splitBlock_line {lead line : List Char} (hl : '\n' ∉ line) (s : List Char) :
    splitBlock lead true (line ++ s) =
      (line ++ (splitBlock lead true s).1, (splitBlock lead true s).2) := by
  induction line with
  | nil => rfl
  | cons c line ih =>
    rw [List.mem_cons, not_or] at hl
    rw [List.cons_append, splitBlock, if_pos (by simp [Ne.symm hl.1]), ih hl.2]
    rfl

/-- At the end of a line it makes no difference whether the line belongs to the block. -/
theorem splitBlock_following (lead : List Char) (lines : List (List Char)) :
    splitBlock lead true (Text.following lines) = splitBlock lead false (Text.following lines) := by
  cases lines with
  | nil => rfl
  | cons l ls => simp [splitBlock]

theorem prefix_append_following_iff {lead line : List Char} (hn : '\n' ∉ lead)
    (lines : List (List Char)) : lead <+: line ++ Text.following lines ↔ lead <+: line := by
  constructor
  · intro h
    cases lines with
    | nil => simpa using h
    | cons l ls => exact Text.prefix_of_prefix_append_cons hn h
  · intro h
    exact h.trans (List.prefix_append _ _)

theorem splitBlock_lines {lead : List Char} (hn : '\n' ∉ lead) {lines : List (List Char)}
    (hls : ∀ l ∈ lines, '\n' ∉ l) : splitBlock lead false (Text.following lines) =
      (Text.following (lines.takeWhile lead.isPrefixOf),
        Text.following (lines.dropWhile lead.isPrefixOf)) := by
  induction lines with
  | nil => rfl
  | cons l ls ih =>
    have hl : '\n' ∉ l := hls l List.mem_cons_self
    rw [Text.following_cons, splitBlock, List.takeWhile_cons, List.dropWhile_cons]
    have hp : ('\n' :: lead).isPrefixOf ('\n' :: (l ++ Text.following ls)) = lead.isPrefixOf l := by
      rw [Bool.eq_iff_iff, List.isPrefixOf_iff_prefix, List.isPrefixOf_iff_prefix,
        List.cons_prefix_cons]
      simp [prefix_append_following_iff hn]
    rw [hp]
    cases h : lead.isPrefixOf l with
    | false => simp
    | true =>
      simp only [Bool.false_and, Bool.false_or, if_true]
      rw [splitBlock_line hl, splitBlock_following,
        ih fun k hk => hls k (List.mem_cons_of_mem l hk)]
      simp

end ApiScaffold.Anchor
