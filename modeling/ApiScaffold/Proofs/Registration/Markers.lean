import ApiScaffold.Proofs.Registration.RouteFile

/-! What becomes of the markers of a route file. A registration should fail over its markers
only where one is missing, and leave both in place. It does so for each text in which no line is
put into the last occurrence of a marker, and for all texts if no end of one marker can lie
inside the other. -/
namespace ApiScaffold

/-- An end of `a` can lie inside `b`: a part in front of `b`, and not all of it, ends like
`a` or with it. -/
def Text.EndsInside (a b : List Char) : Prop :=
  a ≠ [] ∧ ∃ b₁ b₂, b = b₁ ++ b₂ ∧ b₁ ≠ [] ∧ b₂ ≠ [] ∧ (b₁ <:+ a ∨ a <:+ b₁)

namespace Anchor
variable {a : Anchor} {s x y p : List Char}

theorem marker_infix_of_place (h : a.place s = some (x, y)) : a.marker.toList <:+: x := by
  obtain ⟨-, before, -, block, -, rfl, -⟩ := place_eq_some h
  exact List.infix_append before _ block

/-- A text of one line is split by the place of an entry only if the marker's end can lie inside
it. -/
theorem infix_of_place (h : a.place s = some (x, y)) (hn : '\n' ∉ p) (hp : p <:+: s)
    (ha : Text.EndsInside a.marker.toList p → p <:+ a.marker.toList) : p <:+: x ∨ p <:+: y := by
  obtain ⟨rfl, before, after, block, hcut, rfl, hstop⟩ := place_eq_some h
  rcases List.infix_append_iff_ne_nil.1 hp with hp | hp | ⟨p₁, p₂, hp₁, hp₂, rfl, hx, hy⟩
  · exact .inl hp
  · exact .inr hp
  · left
    -- a line of one entry ends at a line feed, of which `p` has none
    have hblock : block = [] := by
      rcases hstop with h | rfl | h
      · exact h
      · exact absurd (List.prefix_nil.1 hy) hp₂
      · cases p₂ with
        | nil => exact absurd rfl hp₂
        | cons c p₂ =>
          obtain ⟨t, rfl⟩ := hy
          obtain rfl : c = '\n' := by simpa using h
          simp at hn
    subst hblock
    rw [List.append_nil] at hx ⊢
    have hm : a.marker.toList ≠ [] := by
      intro hm
      have hb := Text.length_le_of_cut hcut (u := []) (v := before ++ a.marker.toList ++ [] ++ y)
        (by simp [hm])
      have hnil : before = [] := List.length_eq_zero_iff.1 (Nat.le_zero.1 hb)
      rw [hnil, hm] at hx
      exact hp₁ (List.suffix_nil.1 hx)
    have hsuffix := List.suffix_or_suffix_of_suffix hx (List.suffix_append before _)
    have hmarker := ha ⟨hm, p₁, p₂, rfl, hp₁, hp₂, hsuffix⟩
    exact hmarker.isInfix.trans (List.suffix_append before _).isInfix

/-- Of an entry that lacks its first character, and of a shorter text behind, nothing has a part in
an occurrence. -/
theorem not_infix_putAt {entry : List Char} (hn : '\n' ∉ p)
    (hne : p ≠ []) (he : ∀ c, p.head? = some c → c ∉ entry) (hx : ¬ p <:+: x) (hy : ¬ p <:+: y) :
    ¬ p <:+: putAt (x, y) entry := by
  intro h
  rw [putAt, List.append_assoc, List.cons_append, Text.infix_append_cons_iff hn] at h
  rcases h with h | h
  · exact hx h
  · obtain ⟨c, hc⟩ := Option.ne_none_iff_exists'.1 fun h => hne (List.head?_eq_none_iff.1 h)
    exact hy (Text.infix_of_infix_append hc (he c hc) h)

end Anchor

/-- A failure of a registration over its markers. -/
def Failure.OverMarkers : Failure → Prop
  | .markerMissing _ | .markersMissing _ _ _ => True
  | _ => False

namespace Route
variable {imports routes name : String} {s : List Char}

/-- Registering in a file with text `s` fails over markers only if one is missing there; else the
file holds the new text, and both markers with it. -/
def MarkersKept (w : Workspace) (file : Path) (imports routes name s : String) : Prop :=
  ((∃ f w', registerIn file name imports routes w = .error f w' ∧ f.OverMarkers) ↔
    ¬ (imports.toList <:+: s.toList ∧ routes.toList <:+: s.toList)) ∧
  ∀ t w', registerIn file name imports routes w = .ok t w' →
    Work.readText file w' = .ok t w' ∧ imports.toList <:+: t.toList ∧ routes.toList <:+: t.toList

/-- The marker of calls is still there with the import put in, and the marker of imports with
the call put in. -/
def ComeThrough (imports routes name : String) (s : List Char) : Prop :=
  routes.toList <:+: s → ∀ p, (importAnchor imports).place s = some p →
    routes.toList <:+: Anchor.putAt p (importLine name) ∧
      ∀ q, (callAnchor routes).place (Anchor.putAt p (importLine name)) = some q →
        imports.toList <:+: Anchor.putAt q (callLine name)

/-- With the place of the import known it takes two things for the markers to come through. -/
theorem comeThrough_iff_of_place {p : List Char × List Char} (hr : routes.toList <:+: s)
    (hp : (importAnchor imports).place s = some p) : ComeThrough imports routes name s ↔
      routes.toList <:+: Anchor.putAt p (importLine name) ∧
        ∀ q, (callAnchor routes).place (Anchor.putAt p (importLine name)) = some q →
          imports.toList <:+: Anchor.putAt q (callLine name) := by
  constructor
  · intro h
    exact h hr p hp
  · intro h _ p' hp'
    obtain rfl := Option.some.inj (hp.symm.trans hp')
    exact h

theorem markersKept_of_missing {w : Workspace}
    {file : Path} {s : String} (hs : Work.readText file w = .ok s w)
    (hm : ¬ (imports.toList <:+: s.toList ∧ routes.toList <:+: s.toList)) :
    MarkersKept w file imports routes name s := by
  have hrun := registerIn_of_error hs (register_of_missing file.name name hm)
  refine ⟨⟨fun _ => hm, fun _ => ⟨_, _, hrun, trivial⟩⟩, fun t w' ht => ?_⟩
  rw [hrun] at ht
  cases ht

/-- Where the import tears the marker of calls apart the registration fails with both
markers there. -/
theorem not_markersKept_of_torn {w : Workspace}
    {file : Path} {s : String} (hs : Work.readText file w = .ok s w)
    {p : List Char × List Char} (hm : imports.toList <:+: s.toList ∧ routes.toList <:+: s.toList)
    (hp : (importAnchor imports).place s.toList = some p)
    (hq : (callAnchor routes).place (Anchor.putAt p (importLine name)) = none) :
    ¬ MarkersKept w file imports routes name s := by
  have hreg := register_of_present file.name name hm.2 hp
  rw [hq] at hreg
  have hrun := registerIn_of_error hs hreg
  intro h
  exact h.1.1 ⟨_, _, hrun, trivial⟩ hm

/-- Where both entries have their places the markers are kept if the call leaves the marker of
imports. -/
theorem markersKept_iff_of_places {w : Workspace}
    {file : Path} {s : String} (hs : Work.readText file w = .ok s w)
    {p q : List Char × List Char} (hm : imports.toList <:+: s.toList ∧ routes.toList <:+: s.toList)
    (hp : (importAnchor imports).place s.toList = some p)
    (hq : (callAnchor routes).place (Anchor.putAt p (importLine name)) = some q) :
    MarkersKept w file imports routes name s ↔
    imports.toList <:+: Anchor.putAt q (callLine name) := by
  obtain ⟨-, l, hreach, hget⟩ := Work.readText_eq_ok_iff.1 hs
  have hreg := register_of_present file.name name hm.2 hp
  rw [hq] at hreg
  obtain ⟨w', hrun, -, -, hread⟩ := registerIn_of_ok hreach hget hreg
  have hroutes : routes.toList <:+: Anchor.putAt q (callLine name) := by
    have := Anchor.marker_infix_of_place hq
    rw [Anchor.putAt, List.append_assoc]
    exact this.trans (List.prefix_append _ _).isInfix
  constructor
  · intro h
    simpa using (h.2 _ _ hrun).2.1
  · intro h
    refine ⟨⟨?_, fun hno => absurd hm hno⟩, ?_⟩
    · rintro ⟨f, w'', hf, -⟩
      rw [hrun] at hf
      cases hf
    · intro t w'' ht
      rw [hrun] at ht
      obtain ⟨rfl, rfl⟩ := EStateM.Result.ok.inj ht
      exact ⟨hread, by simpa using h, by simpa using hroutes⟩

/-- The markers are kept for one text and name if and only if both come through the two
insertions. -/
theorem markersKept_iff_comeThrough {w : Workspace}
    {file : Path} {s : String} (hs : Work.readText file w = .ok s w) :
    MarkersKept w file imports routes name s ↔ ComeThrough imports routes name s.toList := by
  by_cases hm : imports.toList <:+: s.toList ∧ routes.toList <:+: s.toList
  · obtain ⟨p, hp⟩ := Anchor.exists_place (a := importAnchor imports) hm.1
    rw [comeThrough_iff_of_place hm.2 hp]
    cases hq : (callAnchor routes).place (Anchor.putAt p (importLine name)) with
    | none =>
      have hno : ¬ routes.toList <:+: Anchor.putAt p (importLine name) :=
        (Anchor.place_eq_none_iff.1 hq :)
      exact ⟨fun h => absurd h (not_markersKept_of_torn hs hm hp hq), fun h => absurd h.1 hno⟩
    | some q =>
      rw [markersKept_iff_of_places hs hm hp hq]
      constructor
      · intro h
        refine ⟨(Anchor.marker_infix hq :), fun q' hq' => ?_⟩
        obtain rfl := Option.some.inj hq'
        exact h
      · intro h
        exact h.2 q rfl
  · refine ⟨fun _ hr p hp => ?_, fun _ => markersKept_of_missing hs hm⟩
    exact absurd ⟨(Anchor.marker_infix hp :), hr⟩ hm

/-- Neither marker gets into the way of the other: where an end of one can lie inside the other, the
other ends the one. -/
def Apart (a b : List Char) : Prop :=
  (Text.EndsInside a b → b <:+ a) ∧ (Text.EndsInside b a → a <:+ b)

/-- No line of a route file that stands for the empty name has the first character of the marker. -/
def Foreign (marker : String) : Prop :=
  ∀ c, marker.toList.head? = some c → c ∉ importLine "" ∧ c ∉ callLine ""

theorem comeThrough_of_apart (hi : '\n' ∉ imports.toList) (hr : '\n' ∉ routes.toList)
    (h : Apart imports.toList routes.toList) : ComeThrough imports routes name s := by
  rintro hroutes ⟨x, y⟩ hp
  have hcall : routes.toList <:+: Anchor.putAt (x, y) (importLine name) := by
    rcases Anchor.infix_of_place hp hr hroutes h.1 with hx | hy
    · rw [Anchor.putAt, List.append_assoc]
      exact hx.trans (List.prefix_append _ _).isInfix
    · exact hy.trans (List.suffix_append _ _).isInfix
  refine ⟨hcall, ?_⟩
  rintro ⟨x', y'⟩ hq
  have himport : imports.toList <:+: Anchor.putAt (x, y) (importLine name) := by
    rw [Anchor.putAt, List.append_assoc]
    exact (Anchor.marker_infix_of_place hp).trans (List.prefix_append _ _).isInfix
  rcases Anchor.infix_of_place hq hi himport h.2 with hx | hy
  · rw [Anchor.putAt, List.append_assoc]
    exact hx.trans (List.prefix_append _ _).isInfix
  · exact hy.trans (List.suffix_append _ _).isInfix

private theorem head?_ne_of_not_mem {t : List Char} (h : '\n' ∉ t) : t.head? ≠ some '\n' :=
  fun he => h (List.mem_of_mem_head? he)

private theorem head?_append_ne {t u : List Char} (hne : t ≠ []) (h : '\n' ∉ t) :
    (t ++ u).head? ≠ some '\n' := by
  cases t with
  | nil => exact absurd rfl hne
  | cons c t => simpa using head?_ne_of_not_mem h

/-- The marker of imports is gone when the call is put into it in front of a shorter rest and
of the import. -/
theorem not_infix_putAt_call (hi : '\n' ∉ imports.toList) (hf : Foreign imports) {x q : List Char}
    (hx : ¬ imports.toList <:+: x) (hq : q.length < imports.toList.length) :
    ¬ imports.toList <:+: Anchor.putAt (x, q ++ '\n' :: importLine "") (callLine "") := by
  have hne : imports.toList ≠ [] := List.ne_nil_of_length_pos (by omega)
  refine Anchor.not_infix_putAt hi hne (fun c hc => (hf c hc).2) hx ?_
  rw [Text.infix_append_cons_iff hi]
  rintro (hinf | hinf)
  · have := hinf.length_le
    omega
  · obtain ⟨c, hc⟩ := Option.ne_none_iff_exists'.1 fun h => hne (List.head?_eq_none_iff.1 h)
    exact (hf c hc).1 (hinf.mem (List.mem_of_mem_head? hc))

/-- Where the marker of calls stands inside the other and does not end it, the call is put
into the other. -/
theorem not_comeThrough_of_inside (hi : '\n' ∉ imports.toList)
    (hf : Foreign imports) {p q : List Char} (hne : routes.toList ≠ [])
    (hcut : Text.cut routes.toList imports.toList = some (p, q)) (hq : q ≠ []) :
    ¬ ComeThrough imports routes "" imports.toList := by
  have hsplit := Text.eq_append_of_cut hcut
  have hlen := congrArg List.length hsplit
  have hqpos := List.length_pos_iff.2 hq
  have hrpos := List.length_pos_iff.2 hne
  simp only [List.length_append] at hlen
  have hqn : '\n' ∉ q := fun h => hi (hsplit ▸ List.mem_append_right _ h)
  have hplace : (importAnchor imports).place imports.toList = some (imports.toList, []) := by
    have hself := Text.cut_append_self imports.toList []
    rw [List.append_nil] at hself
    simpa using Anchor.place_of_cut (a := importAnchor imports) hself (by simp)
  have hput : Anchor.putAt (imports.toList, []) (importLine "") =
      imports.toList ++ '\n' :: importLine "" := by
    simp [Anchor.putAt]
  have hplace' : (callAnchor routes).place (Anchor.putAt (imports.toList, []) (importLine "")) =
      some (p ++ routes.toList, q ++ '\n' :: importLine "") := by
    rw [hput]
    exact Anchor.place_of_cut (a := callAnchor routes) (Text.cut_append hcut _)
      (head?_append_ne hq hqn)
  intro h
  refine not_infix_putAt_call hi hf (fun hx => ?_) (by omega)
    ((h ⟨p, q, hsplit.symm⟩ _ hplace).2 _ hplace')
  have := hx.length_le
  simp only [List.length_append] at this
  omega

/-- Where an end of the marker of imports lies inside the other, which does not stand in front of
that end, the import is put into the other. -/
theorem not_comeThrough_of_cut (hr : '\n' ∉ routes.toList)
    (hf : Foreign routes) {before after : List Char}
    (hcut : Text.cut imports.toList s = some (before, after)) (hs : routes.toList <:+: s)
    (hne : after.head? ≠ some '\n') (hb : ¬ routes.toList <:+: before ++ imports.toList)
    (ha : after.length < routes.toList.length) : ¬ ComeThrough imports routes "" s := by
  intro h
  have hplace := Anchor.place_of_cut (a := importAnchor imports) hcut hne
  have hrne : routes.toList ≠ [] := List.ne_nil_of_length_pos (by omega)
  refine Anchor.not_infix_putAt hr hrne (fun c hc => (hf c hc).1) hb ?_ (h hs _ hplace).1
  intro hy
  have := hy.length_le
  omega

theorem exists_not_comeThrough_of_import_inside (hi : '\n' ∉ imports.toList)
    (hr : '\n' ∉ routes.toList) (hfi : Foreign imports) (hfr : Foreign routes)
    (h : Text.EndsInside imports.toList routes.toList) (hs : ¬ routes.toList <:+ imports.toList) :
    ∃ s, ¬ ComeThrough imports routes "" s := by
  obtain ⟨hine, b₁, b₂, hb, hb₁, hb₂, hends⟩ := h
  have hlen := congrArg List.length hb
  have hp₁ := List.length_pos_iff.2 hb₁
  have hp₂ := List.length_pos_iff.2 hb₂
  rw [List.length_append] at hlen
  have hn₂ : '\n' ∉ b₂ := fun hm => hr (hb ▸ List.mem_append_right _ hm)
  by_cases hin : routes.toList <:+: imports.toList
  · obtain ⟨⟨p, q⟩, hcut⟩ := Option.ne_none_iff_exists'.1 fun hc => Text.cut_eq_none_iff.1 hc hin
    refine ⟨_, not_comeThrough_of_inside hi hfi (List.ne_nil_of_length_pos (by omega)) hcut ?_⟩
    rintro rfl
    exact hs ⟨p, by simpa using (Text.eq_append_of_cut hcut).symm⟩
  · rcases hends with ⟨y, hy⟩ | ⟨u, hu⟩
    · refine ⟨imports.toList ++ b₂, not_comeThrough_of_cut hr hfr (Text.cut_append_self _ b₂)
        ⟨y, [], by simp [hb, ← hy]⟩ (head?_ne_of_not_mem hn₂) (by simpa using hin) (by omega)⟩
    · have hsplit : routes.toList = u ++ imports.toList ++ b₂ := by rw [hb, hu]
      obtain ⟨⟨u', v'⟩, hcut⟩ := Option.ne_none_iff_exists'.1 fun hc =>
        Text.cut_eq_none_iff.1 hc ⟨u, b₂, hsplit.symm⟩
      have hle := Text.length_le_of_cut hcut hsplit
      have hl := congrArg List.length (Text.eq_append_of_cut hcut)
      have hl' := congrArg List.length hsplit
      have hip := List.length_pos_iff.2 hine
      simp only [List.length_append] at hl hl'
      have hnv : '\n' ∉ v' := fun hm => hr (Text.eq_append_of_cut hcut ▸ List.mem_append_right _ hm)
      refine ⟨_, not_comeThrough_of_cut hr hfr hcut List.infix_rfl
        (head?_ne_of_not_mem hnv) ?_ (by omega)⟩
      intro hinf
      have := hinf.length_le
      simp only [List.length_append] at this
      omega

/-- Where the marker of imports has its first occurrence at the end of a text that starts with the
other marker, the call is put into it. -/
theorem not_comeThrough_of_overlap (hi : '\n' ∉ imports.toList) (hf : Foreign imports)
    {u b : List Char} (hb : b ≠ []) (hlen : b.length < imports.toList.length) (hn : '\n' ∉ b)
    (hcut : Text.cut imports.toList (routes.toList ++ b) = some (u, [])) :
    ¬ ComeThrough imports routes "" (routes.toList ++ b) := by
  have he := Text.eq_append_of_cut hcut
  have hplace := Anchor.place_of_cut (a := importAnchor imports) hcut (by simp)
  have hput : Anchor.putAt (u ++ imports.toList, []) (importLine "") =
      routes.toList ++ (b ++ '\n' :: importLine "") := by
    rw [Anchor.putAt, ← List.append_assoc routes.toList, he]
    simp
  have hcut' := Text.cut_append_self routes.toList (b ++ '\n' :: importLine "")
  rw [← hput] at hcut'
  have hplace' := Anchor.place_of_cut (a := callAnchor routes) hcut' (head?_append_ne hb hn)
  intro h
  refine not_infix_putAt_call hi hf ?_ hlen
    ((h (List.prefix_append _ _).isInfix _ hplace).2 _ hplace')
  rintro ⟨a, c, hac⟩
  rw [List.nil_append] at hac
  -- an occurrence in the marker of calls would be in front of the first one
  have hfirst := Text.length_le_of_cut hcut (u := a) (v := c ++ b) (by rw [← hac]; simp)
  have hl := congrArg List.length hac
  have hle := congrArg List.length he
  have hpos := List.length_pos_iff.2 hb
  simp only [List.length_append, List.length_nil] at hfirst hl hle
  omega

/-- An occurrence of the marker of imports that starts in the other marker goes on behind that. -/
theorem overlap_of_occurrence (hs : ¬ imports.toList <:+ routes.toList)
    (hin : Text.EndsInside imports.toList routes.toList → routes.toList <:+ imports.toList)
    {u v b : List Char} (he : routes.toList ++ b = u ++ imports.toList ++ v)
    (hine : imports.toList ≠ []) (hlen : u.length < routes.toList.length) :
    ∃ b₁ b₂, routes.toList = u ++ b₁ ∧ imports.toList = b₁ ++ b₂ ∧ b₁ ≠ [] ∧ b₂ ≠ [] := by
  rcases List.append_eq_append_iff.1 he with ⟨w, hw, -⟩ | ⟨w, hw, -⟩
  · have hwne : w ≠ [] := by
      rintro rfl
      exact hs ⟨u, by simpa using hw⟩
    rcases List.append_eq_append_iff.1 hw with ⟨x, hx, hix⟩ | ⟨x, hx, -⟩
    · have hl := congrArg List.length hx
      rw [List.length_append] at hl
      exact ⟨x, w, hx, hix, List.ne_nil_of_length_pos (by omega), hwne⟩
    · have hl := congrArg List.length hx
      rw [List.length_append] at hl
      omega
  · -- all of it would lie inside the other marker
    have hwne : w ≠ [] := by
      rintro rfl
      exact hs ⟨u, by simpa using hw.symm⟩
    have hsuf :=
      hin ⟨hine, u ++ imports.toList, w, hw, by simp [hine], hwne, .inr (List.suffix_append _ _)⟩
    have hl := congrArg List.length hw
    have hle := hsuf.length_le
    have hpos := List.length_pos_iff.2 hwne
    simp only [List.length_append] at hl
    omega

/-- Of a beginning of the marker of imports that ends the other marker, the longest one shows a
text that fails. -/
theorem exists_not_comeThrough_of_overlap (hi : '\n' ∉ imports.toList) (hfi : Foreign imports)
    (hs : ¬ imports.toList <:+ routes.toList)
    (hin : Text.EndsInside imports.toList routes.toList → routes.toList <:+ imports.toList)
    {y b₁ b₂ : List Char} (hr : routes.toList = y ++ b₁) (hb : imports.toList = b₁ ++ b₂)
    (hb₁ : b₁ ≠ []) (hb₂ : b₂ ≠ []) : ∃ s, ¬ ComeThrough imports routes "" s := by
  induction hk : y.length using Nat.strong_induction_on generalizing y b₁ b₂ with
  | _ k ih =>
    have hine : imports.toList ≠ [] := by simp [hb, hb₁]
    have hp₁ := List.length_pos_iff.2 hb₁
    have hlr := congrArg List.length hr
    have hlb := congrArg List.length hb
    rw [List.length_append] at hlr hlb
    have hsplit : routes.toList ++ b₂ = y ++ imports.toList ++ [] := by simp [hr, hb]
    obtain ⟨⟨u, v⟩, hcut⟩ := Option.ne_none_iff_exists'.1 fun hc =>
      Text.cut_eq_none_iff.1 hc ⟨y, [], hsplit.symm⟩
    have hle := Text.length_le_of_cut hcut hsplit
    have he := Text.eq_append_of_cut hcut
    by_cases huy : u.length = y.length
    · obtain rfl : v = [] := by
        have hl := congrArg List.length (he.symm.trans hsplit)
        simp only [List.length_append, List.length_nil] at hl
        exact List.length_eq_zero_iff.1 (by omega)
      have hn₂ : '\n' ∉ b₂ := fun hm => hi (hb ▸ List.mem_append_right _ hm)
      exact ⟨_, not_comeThrough_of_overlap hi hfi hb₂ (by omega) hn₂ hcut⟩
    · obtain ⟨c₁, c₂, hc, hic, hc₁, hc₂⟩ := overlap_of_occurrence hs hin he hine (by omega)
      exact ih u.length (by omega) hc hic hc₁ hc₂ rfl

/-- For markers of one line that start like no line of theirs, being apart is just what it takes. -/
theorem exists_not_comeThrough (hi : '\n' ∉ imports.toList) (hr : '\n' ∉ routes.toList)
    (hfi : Foreign imports) (hfr : Foreign routes) (h : ¬ Apart imports.toList routes.toList) :
    ∃ s, ¬ ComeThrough imports routes "" s := by
  by_cases hin : Text.EndsInside imports.toList routes.toList → routes.toList <:+ imports.toList
  · have hout :
        ¬ (Text.EndsInside routes.toList imports.toList → imports.toList <:+ routes.toList) :=
      fun hout => h ⟨hin, hout⟩
    obtain ⟨⟨hrne, b₁, b₂, hb, hb₁, hb₂, hends⟩, hs⟩ := Classical.not_imp.1 hout
    rcases hends with ⟨y, hy⟩ | ⟨u, hu⟩
    · exact exists_not_comeThrough_of_overlap hi hfi hs hin hy.symm hb hb₁ hb₂
    · have hsplit : imports.toList = u ++ routes.toList ++ b₂ := by rw [hb, hu]
      obtain ⟨⟨p, q⟩, hcut⟩ := Option.ne_none_iff_exists'.1 fun hc =>
        Text.cut_eq_none_iff.1 hc ⟨u, b₂, hsplit.symm⟩
      refine ⟨_, not_comeThrough_of_inside hi hfi hrne hcut ?_⟩
      have hle := Text.length_le_of_cut hcut hsplit
      have hl := congrArg List.length ((Text.eq_append_of_cut hcut).symm.trans hsplit)
      have := List.length_pos_iff.2 hb₂
      simp only [List.length_append] at hl
      exact List.ne_nil_of_length_pos (by omega)
  · obtain ⟨hends, hs⟩ := Classical.not_imp.1 hin
    exact exists_not_comeThrough_of_import_inside hi hr hfi hfr hends hs

/-- Where the markers are kept. Text by text, it takes that the marker of calls is still there with
the import put in, and the marker of imports with the call. Markers of one line are kept in all
texts if they are apart; if they also start like no line of a registration, they are kept in all
texts only if they are apart. -/
theorem markersKept_iff {w : Workspace} {file : Path}
    {s : String} (hs : Work.readText file w = .ok s w) (imports routes name : String) :
    (MarkersKept w file imports routes name s ↔ ComeThrough imports routes name s.toList) ∧
      ('\n' ∉ imports.toList → '\n' ∉ routes.toList →
        (Apart imports.toList routes.toList → MarkersKept w file imports routes name s) ∧
        (Foreign imports → Foreign routes → ¬ Apart imports.toList routes.toList →
          ∃ t w', Work.writeText file t w = .ok () w' ∧ Work.readText file w' = .ok t w' ∧
            ¬ MarkersKept w' file imports routes "" t)) := by
  refine ⟨markersKept_iff_comeThrough hs, fun hi hr => ⟨fun h => ?_, fun hfi hfr h => ?_⟩⟩
  · exact (markersKept_iff_comeThrough hs).2 (comeThrough_of_apart hi hr h)
  · obtain ⟨t, ht⟩ := exists_not_comeThrough hi hr hfi hfr h
    obtain ⟨-, l, hreach, hget⟩ := Work.readText_eq_ok_iff.1 hs
    obtain ⟨u, hw, -⟩ :=
      Work.writeText_of_reaches hreach (by simp [hget]) (FileTree.get?_dropLast hget)
      (String.ofList t)
    have hread := Work.readText_of_writeText hw
    refine ⟨_, _, hw, hread, fun hk => ht ?_⟩
    simpa using (markersKept_iff_comeThrough hread).1 hk

theorem markersKept_iff_nested : ∃ w, Work.readText ⟨.here, ["route.rs"]⟩ w = .ok "// <app>\n" w ∧
    (MarkersKept w ⟨.here, ["route.rs"]⟩ "// <app>" "// <app> routes" "users" "// <app>\n" ↔
      ComeThrough "// <app>" "// <app> routes" "users" "// <app>\n".toList) ∧
    ∃ t w', Work.writeText ⟨.here, ["route.rs"]⟩ t w = .ok () w' ∧
      Work.readText ⟨.here, ["route.rs"]⟩ w' = .ok t w' ∧
      ¬ MarkersKept w' ⟨.here, ["route.rs"]⟩ "// <app>" "// <app> routes" "" t := by
  obtain ⟨w, hw⟩ := exists_routeFile "// <app>\n"
  have hall := markersKept_iff hw "// <app>" "// <app> routes" "users"
  have hforeign (marker : String) (hm : marker.toList.head? = some '/') : Foreign marker := by
    intro c hc
    obtain rfl : '/' = c := Option.some.inj (hm.symm.trans hc)
    decide
  have hends : Text.EndsInside "// <app>".toList "// <app> routes".toList :=
    ⟨by decide, "// <app>".toList, " routes".toList, by decide, by decide, by decide,
      .inl (List.suffix_refl _)⟩
  have hapart : ¬ Apart "// <app>".toList "// <app> routes".toList :=
    fun h => absurd (h.1 hends) (by decide)
  exact ⟨w, hw, hall.1,
    (hall.2 (by decide) (by decide)).2 (hforeign _ (by decide)) (hforeign _ (by decide)) hapart⟩

/-- Not every registration keeps the markers: of these two, both in the file, the first is the start
of the second. -/
theorem not_forall_markersKept : ¬ ∀ (w : Workspace) (file : Path) (s imports routes name : String),
    Work.readText file w = .ok s w → MarkersKept w file imports routes name s := by
  intro h
  obtain ⟨w, hw⟩ := exists_routeFile "// <app> routes\n"
  have hkept := h w _ _ "// <app>" "// <app> routes" "" hw
  have hplace : (importAnchor "// <app>").place "// <app> routes\n".toList =
      some ("// <app>".toList, " routes\n".toList) := by
    decide
  have hlost := ((markersKept_iff_comeThrough hw).1 hkept (by decide) _ hplace).1
  have hslash : ∀ c, "// <app> routes".toList.head? = some c → c ∉ importLine "" := by
    intro c hc
    obtain rfl : '/' = c := Option.some.inj hc
    decide
  exact Anchor.not_infix_putAt (by decide) (by decide) hslash (by decide) (by decide) hlost

end Route
end ApiScaffold
