/-! Finding and replacing one text in another. -/
namespace ApiScaffold.Text

/-- The parts of a text before and after the first occurrence of `pattern`. -/
def cut (pattern : List Char) : List Char → Option (List Char × List Char)
  | [] => if pattern.isEmpty then some ([], []) else none
  | c :: rest =>
    if pattern.isPrefixOf (c :: rest) then some ([], (c :: rest).drop pattern.length)
    else (cut pattern rest).map fun (before, after) => (c :: before, after)

def occurs (pattern s : List Char) : Bool :=
  (cut pattern s).isSome

/-- Replaces occurrences after `skip` characters, which belong to an occurrence replaced before. -/
def replaceAfter (old new : List Char) : Nat → List Char → List Char
  | _, [] => []
  | skip + 1, _ :: rest => replaceAfter old new skip rest
  | 0, c :: rest =>
    if old.isPrefixOf (c :: rest) then new ++ replaceAfter old new (old.length - 1) rest
    else c :: replaceAfter old new 0 rest

/-- Replaces the leftmost occurrence of a text that is not empty, then goes on behind it. -/
def replace (old new s : List Char) : List Char :=
  replaceAfter old new 0 s

/-- What `cut` finds is an occurrence: the parts and the pattern make up the text. -/
theorem eq_append_of_cut {pattern s before after : List Char}
    (h : cut pattern s = some (before, after)) : s = before ++ pattern ++ after := by
  induction s generalizing before with
  | nil =>
    cases pattern with
    | nil => simp [cut] at h; simp [h]
    | cons => simp [cut] at h
  | cons c rest ih =>
    rw [cut] at h
    split at h
    · rename_i hp
      obtain ⟨t, ht⟩ := List.isPrefixOf_iff_prefix.1 hp
      obtain ⟨rfl, rfl⟩ := Prod.mk.inj (Option.some.inj h)
      simp [← ht]
    · obtain ⟨⟨b, a⟩, hb, he⟩ := Option.map_eq_some_iff.1 h
      obtain ⟨rfl, rfl⟩ := Prod.mk.inj he
      simp [ih hb]

end ApiScaffold.Text
