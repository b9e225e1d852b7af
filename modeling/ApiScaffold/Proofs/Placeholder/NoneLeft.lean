import ApiScaffold.Proofs.Placeholder.Outcome

/-! Whether a token is left when it has been replaced. If the value is clean no text below the
directory has the token any more, whatever the texts are, and replacing it again changes
nothing. Otherwise there is a text in which it is left: what stands around an occurrence forms
the token anew. -/
namespace ApiScaffold.Placeholder
open FileTree
variable {w w' : Workspace} {root : Path} {token value : String} {levels : Nat}
  {part : List String → Prop} {rewritten : List Path}

/-- No text below a directory has the token, and replacing it once more finds no file and
changes nothing. -/
structure NoneLeft (token value : String) (root : Path) (levels : Nat) (w : Workspace) : Prop where
  gone : ∀ r s, ¬ Holds token root w r s
  again : ∃ w', replaceBelow root token value levels w = .ok [] w' ∧ w'.tree = w.tree

theorem ReplacedIn.refilled (h : ReplacedIn token value root part w w') :
    Refilled w.tree w'.tree := by
  intro l
  by_cases hl : ∃ r s, Holds token root w r s ∧ part r ∧ l = placeOf w.place root ++ r
  · obtain ⟨r, s, hs, hr, rfl⟩ := hl
    obtain ⟨t, -, ht⟩ := h.replaced r s hs hr
    exact .inr ⟨_, _, hs.2.1, ht⟩
  · exact .inl (h.kept l fun r s hs hr he => hl ⟨r, s, hs, hr, he⟩)

theorem Followable.refilled (h : Followable root levels w) (hb : w.Beside w')
    (hr : Refilled w.tree w'.tree) : Followable root levels w' := by
  constructor
  · rw [hr.locate, hb.place]
    exact h.start
  · intro r n hopens hget
    rw [hb.place] at hopens hget
    obtain ⟨m, hm⟩ := (hr.exists_iff _).1 ⟨n, hget⟩
    exact h.below r m ((Workspace.opens_iff_of_refilled hb hr).1 hopens) hm
  · intro r hopens hget
    rw [hb.place] at hopens hget
    exact h.shallow r ((Workspace.opens_iff_of_refilled hb hr).1 hopens)
      ((hr.directory_iff _).1 hget)

/-- A clean value leaves the token nowhere. -/
theorem not_holds_of_replacedIn
    (hclean : Text.Clean token.toList value.toList) (htoken : token ≠ "")
    (h : ReplacedIn token value root (fun _ => True) w w') (r : List String) (s : String) :
    ¬ Holds token root w' r s := by
  have hold : token.toList ≠ [] := by simpa using htoken
  rintro ⟨hopens, hfile, hs⟩
  rw [h.beside.place] at hopens hfile
  have hopens₀ := (Workspace.opens_iff_of_refilled h.beside h.refilled).1 hopens
  by_cases hheld : ∃ s₀, Holds token root w r s₀
  · obtain ⟨s₀, hs₀⟩ := hheld
    obtain ⟨t, ht, hwritten⟩ := h.replaced r s₀ hs₀ trivial
    have hst : OccursIn token (Text.encode t) := by
      have he : Text.encode t = Text.encode s := by simpa using hwritten.symm.trans hfile
      rw [he]
      exact occursIn_encode.2 hs
    rw [occursIn_encode, (Text.replaced_iff hold).1 ht] at hst
    exact hclean.not_infix_replace hold _ hst
  · -- a file that did not have the token is as it was
    have hkept : w'.tree.get? (placeOf w.place root ++ r) =
        w.tree.get? (placeOf w.place root ++ r) := by
      apply h.kept
      intro r' s' hs' _ he
      rw [List.append_cancel_left he] at hheld
      exact hheld ⟨s', hs'⟩
    exact hheld ⟨s, hopens₀, hkept ▸ hfile, hs⟩

theorem noneLeft_of_gone (hs : w.Sound) (htoken : token ≠ "") (hfollow : Followable root levels w)
    (hgone : ∀ r s, ¬ Holds token root w r s) : NoneLeft token value root levels w := by
  obtain ⟨rewritten, w', h⟩ := replaceBelow_of_followable hs htoken value hfollow
  obtain ⟨hreplaced, hlisted⟩ := replacedIn_of_replaceBelow hs h
  have hnone : rewritten = [] := by
    rw [List.eq_nil_iff_forall_not_mem]
    intro p hp
    obtain ⟨r, s, hr, -⟩ := (hlisted.mem_iff p).1 hp
    exact hgone r s hr
  have htree : w'.tree = w.tree := by
    ext l
    rw [hreplaced.kept l fun r s hr => absurd hr (hgone r s)]
  exact ⟨hgone, w', hnone ▸ h, htree⟩

/-- Where replacing one text leaves the token in it, it does so in a file. -/
theorem exists_holds_of_infix {s : String} (htoken : token ≠ "") (levels : Nat)
    (hs : token.toList <:+: Text.replace token.toList value.toList s.toList) :
    ∃ w rewritten w', w.Sound ∧ w.tree.get? ["notes.txt"] = some (.file (Text.encode s)) ∧
      replaceBelow ⟨.here, []⟩ token value levels w = .ok rewritten w' ∧
      ∃ r t, Holds token ⟨.here, []⟩ w' r t := by
  have hold : token.toList ≠ [] := by simpa using htoken
  obtain ⟨w, hw, hopens, hfollow, hfile⟩ := exists_lone_text s
  have hroot : placeOf w.place ⟨.here, []⟩ = [] := hopens.1.eq.symm
  obtain ⟨rewritten, w', h⟩ := replaceBelow_of_followable hw htoken value (hfollow levels)
  obtain ⟨hreplaced, -⟩ := replacedIn_of_replaceBelow hw h
  have hin : token.toList <:+: s.toList := by
    by_contra hno
    rw [Text.replace_eq_self _ hno] at hs
    exact hno hs
  have hholds : Holds token ⟨.here, []⟩ w ["notes.txt"] s := by
    rw [Holds, hroot]
    exact ⟨hopens, hfile, hin⟩
  obtain ⟨t, ht, hwritten⟩ := hreplaced.replaced _ _ hholds trivial
  have hopens' := (Workspace.opens_iff_of_refilled hreplaced.beside hreplaced.refilled).2 hopens
  refine ⟨w, rewritten, w', hw, hfile, h, ["notes.txt"], t, ?_⟩
  rw [hroot] at hwritten
  rw [Holds, hreplaced.beside.place, hroot, (Text.replaced_iff hold).1 ht]
  exact ⟨hopens', hwritten, hs⟩

/-- Replacing a token leaves none of it, in whatever workspace and below whatever directory, if and
only if the value is clean. -/
theorem noneLeft_iff (htoken : token ≠ "") (levels : Nat) :
    (∀ w root rewritten w', Workspace.Sound w →
        replaceBelow root token value levels w = .ok rewritten w' →
        NoneLeft token value root levels w') ↔
      Text.Clean token.toList value.toList := by
  have hold : token.toList ≠ [] := by simpa using htoken
  constructor
  · intro hall
    by_contra hclean
    obtain ⟨s, hs⟩ := Text.exists_infix_replace hold hclean
    rw [← String.toList_ofList (l := s)] at hs
    obtain ⟨w, rewritten, w', hw, -, h, r, t, hholds⟩ := exists_holds_of_infix htoken levels hs
    exact (hall w _ rewritten w' hw h).gone r t hholds
  · intro hclean w root rewritten w' hw h
    obtain ⟨hreplaced, -⟩ := replacedIn_of_replaceBelow hw h
    have hfollow := followable_of_replaceBelow h
    apply noneLeft_of_gone (hw.refilled hreplaced.beside hreplaced.refilled) htoken
    · exact hfollow.refilled hreplaced.beside hreplaced.refilled
    · exact not_holds_of_replacedIn hclean htoken hreplaced

theorem noneLeft_shop : ∃ w rewritten w', w.Sound ∧
    w.tree.get? ["notes.txt"] = some (.file (Text.encode "__NAME____NAME__")) ∧
    replaceBelow ⟨.here, []⟩ "__NAME__" "shop" Work.usualLevels w = .ok rewritten w' ∧
    NoneLeft "__NAME__" "shop" ⟨.here, []⟩ Work.usualLevels w' := by
  obtain ⟨w, hw, -, hfollow, hfile⟩ := exists_lone_text "__NAME____NAME__"
  obtain ⟨rewritten, w', h⟩ :=
    replaceBelow_of_followable hw (by decide : "__NAME__" ≠ "") "shop" (hfollow _)
  have hclean : Text.Clean "__NAME__".toList "shop".toList := by decide
  exact ⟨w, rewritten, w', hw, hfile, h,
    (noneLeft_iff (by decide) _).2 hclean w _ rewritten w' hw h⟩

/-- Underscores around an occurrence form the token anew. -/
theorem not_forall_noneLeft :
    ¬ ∀ token value w root rewritten w', token ≠ "" → ¬ token.toList <:+: value.toList →
      Workspace.Sound w → replaceBelow root token value Work.usualLevels w = .ok rewritten w' →
      NoneLeft token value root Work.usualLevels w' := by
  intro hall
  have hleft : "__DOMAIN_NAME__".toList <:+: Text.replace "__DOMAIN_NAME__".toList
      "_DOMAIN_NAME_".toList "register___DOMAIN_NAME___routes".toList := by
    decide
  obtain ⟨w, rewritten, w', hw, -, h, r, t, hholds⟩ := exists_holds_of_infix (by decide) _ hleft
  exact (hall _ _ w _ rewritten w' (by decide) (by decide) hw h).gone r t hholds

end ApiScaffold.Placeholder
