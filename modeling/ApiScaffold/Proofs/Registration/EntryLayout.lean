import ApiScaffold.Proofs.Errors
import ApiScaffold.Proofs.Text.Quoted
import ApiScaffold.Registration.EntryLayout
import Mathlib.Data.List.TakeWhile

/-! Layouts by which texts can be laid out. Behind its first character such a layout has nothing but
marks that mean something, and besides zeros and spaces nothing comes out that is neither in the
text laid out nor in the layout. -/
namespace ApiScaffold.EntryLayout
variable {c : Char} {s t rest : List Char} {m : Marks}

/-- A character that has a meaning in a layout behind its first one. -/
def IsMark (c : Char) : Prop :=
  Text.isDigit c = true ∨ c ∈ "<>=^ +-z#,_.s".toList

instance (c : Char) : Decidable (IsMark c) :=
  inferInstanceAs (Decidable (Text.isDigit c = true ∨ c ∈ "<>=^ +-z#,_.s".toList))

theorem not_isMark_brace : ¬ IsMark '{' ∧ ¬ IsMark '}' := by
  decide

/-- Marks have been read from a text up to `rest`. -/
def Passed (s rest : List Char) : Prop :=
  ∀ c ∈ s, IsMark c ∨ c ∈ rest

theorem Passed.trans {r : List Char} (h : Passed s r) (h' : Passed r rest) : Passed s rest :=
  fun c hc => (h c hc).elim .inl (h' c)

theorem passed_takeIf {test : Char → Bool} (htest : ∀ c, test c = true → IsMark c) (s : List Char) :
    Passed s (takeIf test s).2 := by
  intro c hc
  cases s with
  | nil => cases hc
  | cons d s =>
    rw [takeIf]
    split
    · rename_i hd
      rcases List.mem_cons.1 hc with rfl | hc
      · exact .inl (htest c hd)
      · exact .inr hc
    · exact .inr hc

theorem drop_takeWhile (p : Char → Bool) (s : List Char) :
    s.drop (s.takeWhile p).length = s.dropWhile p := by
  have hdrop : (s.takeWhile p ++ s.dropWhile p).drop (s.takeWhile p).length = s.dropWhile p :=
    List.drop_left
  rwa [List.takeWhile_append_dropWhile] at hdrop

theorem passed_readNumber {o : Option Nat} (h : readNumber s = .ok (o, rest)) : Passed s rest := by
  simp only [readNumber, drop_takeWhile] at h
  split_ifs at h with hnone hlarge
  · obtain ⟨-, rfl⟩ := Prod.mk.inj (Except.ok.inj h)
    exact fun c hc => .inr hc
  · obtain ⟨-, rfl⟩ := Prod.mk.inj (Except.ok.inj h)
    intro c hc
    rw [← List.takeWhile_append_dropWhile (p := Text.isDigit) (l := s)] at hc
    exact (List.mem_append.1 hc).imp_left fun hc => .inl (List.mem_takeWhile_imp hc)

theorem passed_takeSeparator {o : Option Char} (h : takeSeparator s = .ok (o, rest)) :
    Passed s rest := by
  unfold takeSeparator at h
  split at h
  · cases h
  · cases h
  · obtain rfl : (takeIf (fun c => c = ',' || c = '_') s).2 = rest :=
      congrArg Prod.snd (Except.ok.inj h)
    refine passed_takeIf (fun c hc => ?_) s
    simp only [Bool.or_eq_true, decide_eq_true_eq] at hc
    rcases hc with rfl | rfl <;> decide

theorem passed_takeLimit {o : Option Nat} (h : takeLimit s = .ok (o, rest)) : Passed s rest := by
  unfold takeLimit at h
  split at h
  · rename_i s
    obtain ⟨⟨n, r⟩, hn, h⟩ := except_bind_eq_ok_iff.1 h
    have hpassed := passed_readNumber hn
    cases n with
    | none => cases h
    | some n =>
      obtain ⟨-, rfl⟩ := Prod.mk.inj (Except.ok.inj h)
      intro c hc
      rcases List.mem_cons.1 hc with rfl | hc
      · exact .inl (by decide)
      · exact hpassed c hc
  · obtain ⟨-, rfl⟩ := Prod.mk.inj (Except.ok.inj h)
    exact fun c hc => .inr hc

theorem isMark_of_isAlignment (h : isAlignment c = true) : IsMark c := by
  simp only [isAlignment, Bool.or_eq_true, decide_eq_true_eq] at h
  rcases h with ((rfl | rfl) | rfl) | rfl <;> decide

theorem passed_takeAlignment (s : List Char) : Passed s.tail (takeAlignment s).2.2 := by
  unfold takeAlignment
  split
  · rename_i c a s
    split_ifs with ha hc
    · intro d hd
      rcases List.mem_cons.1 hd with rfl | hd
      · exact .inl (isMark_of_isAlignment ha)
      · exact .inr hd
    · exact fun d hd => .inr hd
    · exact fun d hd => .inr (List.mem_cons_of_mem c hd)
  · intro d hd
    exact passed_takeIf (fun c => isMark_of_isAlignment) s d (List.mem_of_mem_tail hd)

theorem mem_of_fill (h : (takeAlignment s).1 = some c) : c ∈ s := by
  unfold takeAlignment at h
  split at h
  · split_ifs at h
    · obtain rfl := Option.some.inj h
      exact List.mem_cons_self
  · cases h

theorem passed_front (fill : Option Char) (s : List Char) :
    Passed s (takeIf (fun c => c = '0' && fill.isNone) (takeIf (· = '#') (takeIf (· = 'z')
      (takeIf (fun c => c = ' ' || c = '+' || c = '-') s).2).2).2).2 := by
  refine (passed_takeIf (fun c hc => ?_) s).trans <| (passed_takeIf (fun c hc => ?_) _).trans <|
    (passed_takeIf (fun c hc => ?_) _).trans <| passed_takeIf (fun c hc => ?_) _ <;>
    simp only [Bool.or_eq_true, Bool.and_eq_true, decide_eq_true_eq] at hc
  · rcases hc with (rfl | rfl) | rfl <;> decide
  · subst hc; decide
  · subst hc; decide
  · obtain ⟨rfl, -⟩ := hc; decide

theorem of_read (h : Marks.read s = .ok m) :
    (∀ c ∈ s.tail, IsMark c ∨ c = m.form) ∧ ∀ c ∈ m.fill, c ∈ s := by
  simp only [Marks.read] at h
  obtain ⟨⟨width, r⟩, hwidth, h⟩ := except_bind_eq_ok_iff.1 h
  obtain ⟨⟨separator, r'⟩, hseparator, h⟩ := except_bind_eq_ok_iff.1 h
  obtain ⟨⟨limit, r''⟩, hlimit, h⟩ := except_bind_eq_ok_iff.1 h
  have hpassed : Passed s.tail r'' := (passed_takeAlignment s).trans <| (passed_front _ _).trans <|
    (passed_readNumber hwidth).trans <| (passed_takeSeparator hseparator).trans <|
    passed_takeLimit hlimit
  cases r'' with
  | nil =>
    obtain rfl := Except.ok.inj h
    exact ⟨fun c hc => .inl ((hpassed c hc).resolve_right List.not_mem_nil),
      fun c hc => mem_of_fill hc⟩
  | cons form r'' =>
    cases r'' with
    | nil =>
      obtain rfl := Except.ok.inj h
      exact ⟨fun c hc => (hpassed c hc).imp_right List.mem_singleton.1, fun c hc => mem_of_fill hc⟩
    | cons d r'' => cases h

theorem form_of_padding {p : Text.Padding} (h : m.padding = .ok p) : m.form = 's' := by
  by_contra hform
  unfold Marks.padding at h
  simp only [except_throw_bind, ne_eq, hform, not_false_eq_true, if_true] at h
  split at h
  · split_ifs at h
  · cases h

/-- Whatever the alignment, missing characters are filled up with the filling or, without one, with
zeros or spaces. -/
theorem fill_of_padding {p : Text.Padding} (h : m.padding = .ok p) :
    p.fill ∈ m.fill ∨ p.fill = '0' ∨ p.fill = ' ' := by
  have hform := form_of_padding h
  have hfill : p.fill = m.fill.getD (if m.zeroFill then '0' else ' ') := by
    unfold Marks.padding at h
    simp only [except_throw_bind, ne_eq, hform, not_true_eq_false, if_false] at h
    split at h
    · rename_i separator _
      have hseparates : separates separator 's' = false := by simp [separates]
      rw [hseparates] at h
      cases h
    · cases hsign : m.sign with
      | some mark => simp [hsign] at h
      | none =>
        cases hzero : m.zeroSign with
        | true => simp [hsign, hzero] at h
        | false =>
          cases halternate : m.alternate with
          | true => simp [hsign, hzero, halternate] at h
          | false =>
            simp only [hsign, hzero, halternate, Bool.false_eq_true, if_false] at h
            split at h
            · cases h
            · exact (congrArg Text.Padding.fill (Except.ok.inj h)).symm
            · exact (congrArg Text.Padding.fill (Except.ok.inj h)).symm
            · exact (congrArg Text.Padding.fill (Except.ok.inj h)).symm
  rw [hfill]
  cases m.fill with
  | some c => exact .inl rfl
  | none => cases m.zeroFill <;> simp

variable {marks : List Char}

/-- A text can be laid out only by marks that have a meaning. -/
theorem isMark_of_apply (h : apply marks s = .ok t) : ∀ c ∈ marks.tail, IsMark c := by
  unfold apply at h
  split at h
  · rename_i hempty
    rw [List.isEmpty_iff.1 hempty]
    intro c hc
    cases hc
  · obtain ⟨m, hm, h⟩ := except_bind_eq_ok_iff.1 h
    obtain ⟨p, hp, h⟩ := except_bind_eq_ok_iff.1 h
    intro c hc
    rcases (of_read hm).1 c hc with hmark | rfl
    · exact hmark
    · rw [form_of_padding hp]
      decide

/-- What a layout adds to a text is one of its marks, a zero or a space. -/
theorem mem_of_apply (h : apply marks s = .ok t) (hc : c ∈ t) :
    c ∈ s ∨ c ∈ marks ∨ c = '0' ∨ c = ' ' := by
  unfold apply at h
  split at h
  · obtain rfl := Except.ok.inj h
    exact .inl hc
  · obtain ⟨m, hm, h⟩ := except_bind_eq_ok_iff.1 h
    obtain ⟨p, hp, h⟩ := except_bind_eq_ok_iff.1 h
    obtain rfl := Except.ok.inj h
    rcases Text.Padding.mem_apply hc with hc | rfl
    · exact .inl hc
    · exact .inr ((fill_of_padding hp).imp_left ((of_read hm).2 _))

end ApiScaffold.EntryLayout
