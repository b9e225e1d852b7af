import ApiScaffold.Proofs.Registration.EntryLayout
import ApiScaffold.Registration.EntryTemplate

/-! What a field refers to when the name has no opening brace. Whatever a path leads to has none
in any text that can be reached from it, neither converted nor laid out, and no braces stand in
the path itself. -/
namespace ApiScaffold

def Unbraced (s : List Char) : Prop :=
  '{' ∉ s ∧ '}' ∉ s

instance (s : List Char) : Decidable (Unbraced s) :=
  inferInstanceAs (Decidable ('{' ∉ s ∧ '}' ∉ s))

theorem Unbraced.append {s t : List Char} (hs : Unbraced s) (ht : Unbraced t) :
    Unbraced (s ++ t) := by
  simp only [Unbraced, List.mem_append, not_or]
  exact ⟨⟨hs.1, ht.1⟩, hs.2, ht.2⟩

theorem Unbraced.cons {c : Char} {s : List Char} (hc : c ≠ '{' ∧ c ≠ '}') (hs : Unbraced s) :
    Unbraced (c :: s) := by
  simp only [Unbraced, List.mem_cons, not_or]
  exact ⟨⟨hc.1.symm, hs.1⟩, hc.2.symm, hs.2⟩

theorem not_mem_toList_ofList {c : Char} {l : List Char} (h : c ∉ l) :
    c ∉ (String.ofList l).toList := by
  rwa [String.toList_ofList]

namespace Referent

/-- No text that can be reached from a referent has an opening brace. -/
def Braceless : Referent → Prop
  | .text s => '{' ∉ s
  | .bound subject m => Braceless subject ∧ '{' ∉ m.name.toList
  | .free m => '{' ∉ m.name.toList
  | .nothing | .kind _ | .kinds _ => True

namespace Kind

theorem unbraced_name (k : Kind) : Unbraced k.name.toList := by
  cases k <;> decide

theorem not_mem_about (k : Kind) : ∀ s ∈ k.about?, '{' ∉ s.toList := by
  cases k with
  | text | object | tuple =>
    rintro s ⟨⟩
    simp only [String.toList_append, List.mem_append, not_or]
    and_intros <;> exact not_mem_toList_ofList (by decide)
  | kind =>
    rintro s ⟨⟩
    exact not_mem_toList_ofList (by decide)
  | _ => rintro s ⟨⟩

theorem unbraced_members (k : Kind) : ∀ name ∈ k.operations ++ k.methods, Unbraced name.toList := by
  cases k <;> simp [operations, methods, Unbraced]

theorem of_own? {k : Kind} {name : String} {m : Member} (h : k.own? name = some m) :
    m.name = name ∧ Unbraced name.toList := by
  have hplain := k.unbraced_members name
  rw [List.mem_append] at hplain
  unfold own? at h
  split at h
  · rename_i hc
    obtain rfl := Option.some.inj h
    exact ⟨rfl, hplain (.inl (by simpa using hc))⟩
  · split at h
    · rename_i hc
      obtain rfl := Option.some.inj h
      exact ⟨rfl, hplain (.inr (by simpa using hc))⟩
    · cases h

theorem of_member? {k : Kind} {name : String} {m : Member} (h : k.member? name = some m) :
    m.name = name ∧ Unbraced name.toList := by
  obtain ⟨k', -, hk⟩ := List.exists_of_findSome?_eq_some h
  exact of_own? hk

end Kind

variable {r r' : Referent} {name : String}

theorem braceless_ofString {s : String} (h : '{' ∉ s.toList) : (ofString s).Braceless :=
  h

theorem braceless_about (k : Kind) : (ofString? k.about?).Braceless := by
  cases ha : k.about? with
  | none => trivial
  | some s => exact k.not_mem_about s ha

theorem eq_or_of_orElse {α : Type} {x y : Option α} {a : α} (h : (x <|> y) = some a) :
    x = some a ∨ y = some a := by
  cases x with
  | none => exact .inr h
  | some b => exact .inl h

theorem of_ofKind? {k : Kind} (h : ofKind? k name = some r) :
    r.Braceless ∧ Unbraced name.toList := by
  unfold ofKind? at h
  split at h
  · obtain rfl := Option.some.inj h
    exact ⟨k.unbraced_name.1, by decide⟩
  · obtain rfl := Option.some.inj h
    exact ⟨k.unbraced_name.1, by decide⟩
  · obtain rfl := Option.some.inj h
    exact ⟨braceless_ofString (by decide), by decide⟩
  · obtain rfl := Option.some.inj h
    refine ⟨?_, by decide⟩
    cases k.base? <;> trivial
  · obtain rfl := Option.some.inj h
    exact ⟨trivial, by decide⟩
  · obtain rfl := Option.some.inj h
    exact ⟨trivial, by decide⟩
  · obtain rfl := Option.some.inj h
    exact ⟨braceless_about k, by decide⟩
  · cases h

theorem braceless_ownName {k : Kind} {s : String} (hs : '{' ∉ s.toList) (h : ownName k s = some r) :
    r.Braceless := by
  obtain rfl := Option.some.inj h
  refine braceless_ofString ?_
  rw [String.toList_append, String.toList_append, List.mem_append, List.mem_append, not_or, not_or]
  exact ⟨⟨k.unbraced_name.1, by decide⟩, hs⟩

theorem of_ofMember? (hr : r.Braceless) (h : ofMember? r name = some r') :
    r'.Braceless ∧ Unbraced name.toList := by
  unfold ofMember? at h
  split at h
  · obtain rfl := Option.some.inj h
    exact ⟨hr.2, by decide⟩
  · obtain rfl := Option.some.inj h
    exact ⟨hr, by decide⟩
  · exact ⟨braceless_ownName hr h, by decide⟩
  · exact ⟨braceless_ownName hr.2 h, by decide⟩
  · exact ⟨braceless_ownName hr.2 h, by decide⟩
  · obtain rfl := Option.some.inj h
    exact ⟨hr.1, by decide⟩
  · split at h
    · obtain rfl := Option.some.inj h
      exact ⟨trivial, by decide⟩
    · cases h
  · obtain rfl := Option.some.inj h
    exact ⟨trivial, by decide⟩
  · split at h
    · cases h
    · obtain rfl := Option.some.inj h
      exact ⟨trivial, by decide⟩
  · cases h

/-- A member of a referent without opening braces has none either, and no braces are in its name. -/
theorem of_member? (hr : r.Braceless) (h : r.member? name = some r') :
    r'.Braceless ∧ Unbraced name.toList := by
  have hbound : ∀ x, (r.kindOf.member? name).map (Referent.bound r) = some x →
      x.Braceless ∧ Unbraced name.toList := by
    intro x hx
    obtain ⟨m, hm, rfl⟩ := Option.map_eq_some_iff.1 hx
    obtain ⟨hname, hplain⟩ := Kind.of_member? hm
    exact ⟨⟨hr, hname ▸ hplain.1⟩, hplain⟩
  unfold member? at h
  split at h
  · rename_i hc
    obtain rfl := Option.some.inj h
    exact ⟨trivial, hc ▸ by decide⟩
  · dsimp only at h
    split at h
    · rename_i k _
      rcases eq_or_of_orElse h with h | h
      · exact of_ofKind? h
      · rcases eq_or_of_orElse h with h | h
        · obtain ⟨m, hm, rfl⟩ := Option.map_eq_some_iff.1 h
          obtain ⟨hname, hplain⟩ := Kind.of_member? hm
          exact ⟨show '{' ∉ m.name.toList from hname ▸ hplain.1, hplain⟩
        · exact hbound r' h
    · rcases eq_or_of_orElse h with h | h
      · exact of_ofMember? hr h
      · rcases eq_or_of_orElse h with h | h
        · split at h
          · rename_i hdoc
            obtain rfl := Option.some.inj h
            exact ⟨braceless_about _, hdoc ▸ by decide⟩
          · cases h
        · exact hbound r' h

theorem kindText_braceless (k : Kind) : '{' ∉ (kindText k).toList := by
  cases k <;> decide

theorem kindTexts_braceless (ks : List Kind) :
    '{' ∉ (", ".intercalate (ks.map kindText)).toList := by
  rw [String.toList_intercalate]
  induction ks with
  | nil => simp
  | cons k ks ih =>
    have hk := kindText_braceless k
    cases ks with
    | nil => simpa using hk
    | cons k' ks =>
      simp only [List.map_cons, List.intercalate_cons_cons, List.mem_append, not_or] at ih ⊢
      exact ⟨⟨hk, by decide⟩, ih⟩

theorem not_mem_toText (hr : r.Braceless) : '{' ∉ r.toText := by
  cases r with
  | nothing => decide
  | text s => exact hr
  | kind k => exact kindText_braceless k
  | kinds ks =>
    rcases ks with _ | ⟨k, _ | ⟨k', ks⟩⟩
    · decide
    · simpa [toText] using kindText_braceless k
    · simpa [toText] using kindTexts_braceless (k :: k' :: ks)
  | bound subject m =>
    have hkind := subject.kindOf.unbraced_name.1
    have hname := hr.2
    simp only [toText]
    split <;> simp [toString, hkind, hname]
  | free m =>
    have hkind := m.owner.unbraced_name.1
    have hname : '{' ∉ m.name.toList := hr
    simp only [toText]
    split <;> simp [toString, hkind, hname]

end Referent

namespace EntryTemplate
variable {name path : List Char} {r r' : Referent}

theorem unbraced_of_passed {s : List Char} (h : EntryLayout.Passed s []) : Unbraced s := by
  have hmark : ∀ c ∈ s, EntryLayout.IsMark c := fun c hc => (h c hc).resolve_right List.not_mem_nil
  exact ⟨fun hc => EntryLayout.not_isMark_brace.1 (hmark _ hc),
    fun hc => EntryLayout.not_isMark_brace.2 (hmark _ hc)⟩

theorem unbraced_of_index? {word : List Char} {i : Nat} (h : index? word = .ok (some i)) :
    Unbraced word := by
  unfold index? at h
  cases hread : EntryLayout.readNumber word with
  | error e =>
    rw [hread] at h
    cases h
  | ok p =>
    obtain ⟨n, rest⟩ := p
    rw [hread] at h
    have hpassed := EntryLayout.passed_readNumber hread
    cases rest with
    | nil => exact unbraced_of_passed hpassed
    | cons c rest => cases h

theorem of_part {i : Option Nat} (hr : r.Braceless) (h : part r i = .ok r') :
    r'.Braceless ∧ i.isSome := by
  unfold part at h
  split at h
  · rename_i s i
    cases hc : s[i]? with
    | none => simp [hc] at h
    | some c =>
      obtain rfl : .text [c] = r' := by simpa [hc] using h
      have hne : c ≠ '{' := fun he => hr (he ▸ List.mem_of_getElem? hc)
      exact ⟨by simpa [Referent.Braceless] using hne.symm, rfl⟩
  · split at h
    · obtain rfl := Except.ok.inj h
      exact ⟨trivial, rfl⟩
    · cases h
  · cases h
  · cases h
  · cases h

theorem unbraced_of_run {p : Char → Bool} {s : List Char} (h : Unbraced (s.takeWhile p))
    (h' : Unbraced (s.dropWhile p)) : Unbraced s := by
  rw [← List.takeWhile_append_dropWhile (p := p) (l := s)]
  exact h.append h'

/-- A word in brackets, with the bracket that ends it if there is one. -/
theorem unbraced_of_bracketed {s : List Char} (h : Unbraced (s.takeWhile (· ≠ ']')))
    (h' : Unbraced (s.drop ((s.takeWhile (· ≠ ']')).length + 1))) : Unbraced s := by
  refine unbraced_of_run h ?_
  rw [← List.tail_drop, EntryLayout.drop_takeWhile] at h'
  have hbracket := List.head?_dropWhile_not (· ≠ ']') s
  cases hdrop : s.dropWhile (· ≠ ']') with
  | nil => decide
  | cons c rest =>
    rw [hdrop] at h' hbracket
    obtain rfl : c = ']' := by simpa using hbracket
    exact h'.cons (by decide)

/-- No braces stand in a path that leads somewhere, and none are opened in what it leads to. -/
theorem of_follow (hr : r.Braceless) (h : follow r path = .ok r') :
    r'.Braceless ∧ Unbraced path := by
  fun_induction follow r path with
  | case1 r =>
    obtain rfl := Except.ok.inj h
    exact ⟨hr, by decide⟩
  | case5 r rest word index hindex hword r₁ hpart ih =>
    obtain ⟨hr₁, hsome⟩ := of_part hr hpart
    obtain ⟨i, rfl⟩ := Option.isSome_iff_exists.1 hsome
    obtain ⟨hr', hrest⟩ := ih hr₁ h
    exact ⟨hr', (unbraced_of_bracketed (unbraced_of_index? hindex) hrest).cons (by decide)⟩
  | case8 r rest word hword r₁ hmember ih =>
    obtain ⟨hr₁, hplain⟩ := Referent.of_member? hr hmember
    obtain ⟨hr', hrest⟩ := ih hr₁ h
    rw [String.toList_ofList] at hplain
    rw [EntryLayout.drop_takeWhile] at hrest
    exact ⟨hr', (unbraced_of_run hplain hrest).cons (by decide)⟩
  | _ => cases h

theorem of_valueAt (hname : '{' ∉ name) (h : valueAt name path = .ok r) :
    r.Braceless ∧ Unbraced path := by
  unfold valueAt at h
  obtain ⟨i, -, h⟩ := except_bind_eq_ok_iff.1 h
  cases i with
  | some i => cases h
  | none =>
    simp only [except_throw_bind] at h
    split_ifs at h with hempty hkey
    obtain ⟨hr, hrest⟩ := of_follow (r := .text name) hname h
    rw [EntryLayout.drop_takeWhile] at hrest
    rw [not_not] at hkey
    exact ⟨hr, unbraced_of_run (hkey ▸ by decide) hrest⟩

/-- Quotes open no braces, and neither do conversions. -/
theorem of_convert {letter : Option Char} (hr : r.Braceless) (h : convert letter r = .ok r') :
    r'.Braceless ∧ ∀ c ∈ letter, c ≠ '{' ∧ c ≠ '}' := by
  have hquoted : ∀ quote : List Char → List Char, (∀ s, '{' ∉ s → '{' ∉ quote s) →
      '{' ∉ quoted quote r := by
    intro quote hquote
    unfold quoted
    split
    · exact hquote _ hr
    · exact Referent.not_mem_toText hr
  unfold convert at h
  split at h
  · obtain rfl := Except.ok.inj h
    exact ⟨hr, by simp⟩
  · obtain rfl := Except.ok.inj h
    exact ⟨Referent.not_mem_toText hr, by simp⟩
  · obtain rfl := Except.ok.inj h
    exact ⟨hquoted Text.quote fun s => Text.not_mem_quote, by simp⟩
  · obtain rfl := Except.ok.inj h
    exact ⟨hquoted Text.quoteAscii fun s => Text.not_mem_quoteAscii, by simp⟩
  · cases h

/-- A referent that is laid out shows no braces but one that its marks start with. -/
theorem of_layOut {marks t : List Char} (hr : r.Braceless) (h : layOut marks r = .ok t) :
    (∀ c ∈ marks.tail, EntryLayout.IsMark c) ∧ ('{' ∈ t → '{' ∈ marks) := by
  unfold layOut at h
  split at h
  · rename_i s
    cases hs : EntryLayout.apply marks s with
    | error e =>
      rw [hs] at h
      cases h
    | ok t' =>
      rw [hs] at h
      obtain rfl := Except.ok.inj h
      refine ⟨EntryLayout.isMark_of_apply hs, fun ht => ?_⟩
      rcases EntryLayout.mem_of_apply hs ht with h | h | h | h
      · exact absurd h hr
      · exact h
      · cases h
      · cases h
  · split_ifs at h with hmarks
    obtain rfl := Except.ok.inj h
    rw [List.isEmpty_iff.1 hmarks]
    exact ⟨by simp, fun ht => absurd ht (Referent.not_mem_toText hr)⟩

end EntryTemplate
end ApiScaffold
