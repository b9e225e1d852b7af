import ApiScaffold.Proofs.Errors
import ApiScaffold.Proofs.Yaml.Document

/-! Documents of texts are closed: every collection that a value in them names is there. While a
document is built, a collection that is named has been filled, is being filled or is put down to be
filled, and in the end none is put down. -/
namespace ApiScaffold.Yaml

theorem bind_eq_ok_iff {σ ε α β : Type} {x : StateT σ (Except ε) α}
    {f : α → StateT σ (Except ε) β} {s s' : σ} {b : β} :
    (x >>= f) s = .ok (b, s') ↔ ∃ a s₁, x s = .ok (a, s₁) ∧ f a s₁ = .ok (b, s') := by
  change (x s >>= fun p => f p.1 p.2) = _ ↔ _
  rw [except_bind_eq_ok_iff, Prod.exists]

theorem get_bind_eq_ok_iff {σ ε β : Type} {f : σ → StateT σ (Except ε) β} {s s' : σ} {b : β} :
    (get >>= f) s = .ok (b, s') ↔ f s s = .ok (b, s') :=
  Iff.rfl

namespace Graph
variable {g g' : Graph} {n : NodeId}

@[simp] theorem size_setContent (g : Graph) (n : NodeId) (content : Content) :
    (g.setContent n content).nodes.size = g.nodes.size :=
  Array.size_modify

@[simp] theorem size_setTag (g : Graph) (n : NodeId) (tag : Tag) :
    (g.setTag n tag).nodes.size = g.nodes.size :=
  Array.size_modify

@[simp] theorem size_plainKeys (g : Graph) (pairs : List (NodeId × NodeId)) :
    (g.plainKeys pairs).nodes.size = g.nodes.size := by
  induction pairs generalizing g with
  | nil => rfl
  | cons p pairs ih =>
    obtain ⟨k, v⟩ := p
    rw [plainKeys, List.foldl_cons]
    refine (ih _).trans ?_
    by_cases hk : g.tag? k = some .default <;> simp [hk]

def KeepsSize {α : Type} (x : Merging α) : Prop :=
  ∀ g a g', x g = .ok (a, g') → g'.nodes.size = g.nodes.size

theorem KeepsSize.bind {α β : Type} {x : Merging α} {f : α → Merging β} (hx : KeepsSize x)
    (hf : ∀ a, KeepsSize (f a)) : KeepsSize (x >>= f) := by
  intro g b g' h
  obtain ⟨a, g₁, hxa, hfb⟩ := bind_eq_ok_iff.1 h
  exact (hf a _ _ _ hfb).trans (hx _ _ _ hxa)

theorem keepsSize_pure {α : Type} (a : α) : KeepsSize (pure a) := by
  intro g b g' h
  obtain ⟨-, rfl⟩ := Prod.mk.inj (Except.ok.inj h)
  rfl

theorem keepsSize_get : KeepsSize get := by
  intro g b g' h
  obtain ⟨-, rfl⟩ := Prod.mk.inj (Except.ok.inj h)
  rfl

theorem keepsSize_throw {α : Type} (e : Fault) : KeepsSize (throw e : Merging α) := by
  intro g b g' h
  cases h

theorem KeepsSize.mapM {α β : Type} {f : α → Merging β} (h : ∀ a, KeepsSize (f a)) (as : List α) :
    KeepsSize (as.mapM f) := by
  induction as with
  | nil => exact keepsSize_pure []
  | cons a as ih =>
    rw [List.mapM_cons]
    exact (h a).bind fun _ => ih.bind fun _ => keepsSize_pure _

theorem keepsSize_mergedPairs {merge : NodeId → Merging Unit} (h : ∀ m, KeepsSize (merge m))
    (m : NodeId) : KeepsSize (mergedPairs merge m) := by
  have hread :=
    (h m).bind fun _ => keepsSize_get.bind fun g : Graph => keepsSize_pure ((g.pairs? m).getD [])
  refine keepsSize_get.bind fun g => ?_
  simp only
  split
  · exact (keepsSize_throw _).bind fun _ => hread
  · exact hread

theorem keepsSize_mergeFrom (bound : Nat) (found : List (NodeId × NodeId)) (n : NodeId) :
    KeepsSize (mergeFrom bound found n) := by
  induction bound generalizing found n with
  | zero => exact keepsSize_throw _
  | succ bound ih =>
    have hmerged (m : NodeId) : KeepsSize (mergedPairs (mergeFrom bound []) m) :=
      keepsSize_mergedPairs (ih []) m
    rw [mergeFrom]
    intro g u g' h
    replace h := get_bind_eq_ok_iff.1 h
    simp only at h
    cases htake : g.takeMerge ((g.pairs? n).getD []) with
    | none =>
      rw [htake] at h
      obtain ⟨-, rfl⟩ := Prod.mk.inj (Except.ok.inj h)
      simp
    | some taken =>
      obtain ⟨source, rest⟩ := taken
      rw [htake] at h
      obtain ⟨u₁, g₁, hset, h⟩ := bind_eq_ok_iff.1 h
      obtain ⟨-, rfl⟩ := Prod.mk.inj (Except.ok.inj hset)
      rw [← size_setContent g n]
      suffices hrest : KeepsSize _ from hrest _ _ _ h
      split
      · exact (KeepsSize.mapM hmerged _).bind fun _ => (keepsSize_pure _).bind fun _ => ih _ n
      · exact (hmerged _).bind fun _ => ih _ n

end Graph

def Collection.values : Collection → List Value
  | .list items => items
  | .pairs items => items.flatMap fun (a, b) => [a, b]
  | .mapping entries => entries.map (·.2)
  | .set _ => []

theorem values_insertEntry {key : Atom} {x v : Value} {entries : List (Atom × Value)}
    (h : v ∈ (insertEntry key x entries).map (·.2)) : v = x ∨ v ∈ entries.map (·.2) := by
  induction entries with
  | nil => exact .inl (by simpa [insertEntry] using h)
  | cons e entries ih =>
    obtain ⟨k, y⟩ := e
    rw [insertEntry] at h
    split at h
    · rw [List.map_cons, List.mem_cons] at h ⊢
      exact h.imp_right .inr
    · rw [List.map_cons, List.mem_cons] at h ⊢
      rcases h with h | h
      · exact .inr (.inl h)
      · exact (ih h).imp_right .inr

namespace Document

/-- A value that a document can tell: a collection must be there. -/
def Has (d : Document) : Value → Prop
  | .atom _ => True
  | .collection n => (d.collection? n).isSome

/-- A document that has all values in it. -/
structure Closed (d : Document) : Prop where
  root : d.Has d.root
  inner : ∀ n c, d.collection? n = some c → ∀ v ∈ c.values, d.Has v

namespace Builder
variable {b b' b₁ : Building} {n : NodeId} {v : Value} {filling : Option NodeId}

/-- A value whose collection has been filled, is being filled or is put down to be filled. -/
def Known (filling : Option NodeId) (b : Building) : Value → Prop
  | .atom _ => True
  | .collection n =>
    n < b.collections.size ∧ (filling = some n ∨ n ∈ b.unfilled ∨ b.collections[n]?.join.isSome)

/-- All values so far are known. -/
structure Accounted (filling : Option NodeId) (b : Building) : Prop where
  size : b.graph.nodes.size = b.collections.size
  down : ∀ n ∈ b.unfilled, n < b.collections.size
  values : ∀ (n : Nat) v, b.values[n]? = some (some v) → Known filling b v
  inner : ∀ (n : Nat) c, b.collections[n]?.join = some c → ∀ v ∈ c.values, Known filling b v

/-- Nothing has been filled, and no collection that was put down is forgotten. -/
structure Onward (b b' : Building) : Prop where
  collections : b'.collections = b.collections
  unfilled : ∀ n ∈ b.unfilled, n ∈ b'.unfilled

theorem Onward.refl (b : Building) : Onward b b :=
  ⟨rfl, fun _ h => h⟩

theorem Onward.trans (h : Onward b b₁) (h' : Onward b₁ b') : Onward b b' :=
  ⟨h'.collections.trans h.collections, fun n hn => h'.unfilled n (h.unfilled n hn)⟩

theorem Known.onward (h : Known filling b v) (hb : Onward b b') : Known filling b' v := by
  cases v with
  | atom a => trivial
  | collection n =>
    obtain ⟨hn, hwhere⟩ := h
    refine ⟨hb.collections ▸ hn, hwhere.imp_right fun hrest => ?_⟩
    exact hrest.imp (hb.unfilled n) fun hfilled => hb.collections ▸ hfilled

/-- Work that keeps account of all values, and of what it tells. -/
def Tells {α : Type} (filling : Option NodeId) (told : α → Building → Prop)
    (x : Builder α) : Prop :=
  ∀ b a b', Accounted filling b → x b = .ok (a, b') → Accounted filling b' ∧ Onward b b' ∧ told a b'

theorem Tells.mono {α : Type} {told told' : α → Building → Prop} {x : Builder α}
    (hx : Tells filling told x) (h : ∀ a b, told a b → told' a b) : Tells filling told' x := by
  intro b a b' hb hxb
  obtain ⟨hb', hon, htold⟩ := hx b a b' hb hxb
  exact ⟨hb', hon, h a b' htold⟩

theorem tells_mapM {α β : Type} {told : β → Building → Prop}
    (hstable : ∀ a b b', told a b → Onward b b' → told a b')
    {f : α → Builder β} (hf : ∀ a, Tells filling told (f a)) (as : List α) :
    Tells filling (fun found b => ∀ a ∈ found, told a b) (as.mapM f) := by
  induction as with
  | nil =>
    intro b found b' hb h
    obtain ⟨rfl, rfl⟩ := Prod.mk.inj (Except.ok.inj h)
    exact ⟨hb, .refl _, by simp⟩
  | cons a as ih =>
    intro b found b' hb h
    rw [List.mapM_cons] at h
    obtain ⟨x, b₁, hx, h⟩ := bind_eq_ok_iff.1 h
    obtain ⟨xs, b₂, hxs, h⟩ := bind_eq_ok_iff.1 h
    obtain ⟨rfl, rfl⟩ := Prod.mk.inj (Except.ok.inj h)
    obtain ⟨hb₁, hon₁, htold⟩ := hf a b x b₁ hb hx
    obtain ⟨hb₂, hon₂, hrest⟩ := ih b₁ xs b₂ hb₁ hxs
    exact ⟨hb₂, hon₁.trans hon₂, List.forall_mem_cons.2 ⟨hstable _ _ _ htold hon₂, hrest⟩⟩

theorem node_eq_ok {node : Yaml.Node} (h : Builder.node n b = .ok (node, b')) :
    b' = b ∧ b.graph.get? n = some node := by
  replace h := get_bind_eq_ok_iff.1 h
  cases hn : b.graph.get? n with
  | none =>
    simp only [hn] at h
    cases h
  | some m =>
    simp only [hn] at h
    obtain ⟨rfl, rfl⟩ := Prod.mk.inj (Except.ok.inj h)
    exact ⟨rfl, rfl⟩

theorem lift_eq_ok {α : Type} {x : Except Fault α} {a : α}
    (h : (liftM x : Builder α) b = .ok (a, b')) : x = .ok a ∧ b' = b := by
  cases x with
  | error e => cases h
  | ok a' =>
    obtain ⟨rfl, rfl⟩ := Prod.mk.inj (Except.ok.inj h)
    exact ⟨rfl, rfl⟩

theorem ite_eq_ok {α : Type} {c : Prop} [Decidable c] {x y : Builder α} {a : α}
    (h : (if c then x else y) b = .ok (a, b')) : x b = .ok (a, b') ∨ y b = .ok (a, b') := by
  by_cases hc : c
  · exact .inl (by rwa [if_pos hc] at h)
  · exact .inr (by rwa [if_neg hc] at h)

theorem atom_eq_ok {node : Yaml.Node} {a : Atom} (h : atom n node b = .ok (a, b')) : b' = b := by
  have hrest := get_bind_eq_ok_iff.1 h
  obtain ⟨s, b₁, hs, hend⟩ := bind_eq_ok_iff.1 hrest
  obtain ⟨-, rfl⟩ := lift_eq_ok hs
  rcases ite_eq_ok hend with hlate | hatom
  · cases hlate
  · exact (lift_eq_ok hatom).2

/-- The value of a node is told again, or it is an atom, or a collection that is put down. -/
theorem value_eq_ok (h : value n b = .ok (v, b')) : (b.values[n]? = some (some v) ∧ b' = b) ∨
    ((∃ a, v = .atom a) ∧ b' = { b with values := b.values.setIfInBounds n (some v) }) ∨
    (v = .collection n ∧ n < b.graph.nodes.size ∧ b' =
      { b with unfilled := b.unfilled ++ [n], values := b.values.setIfInBounds n (some v) }) := by
  have hrest := get_bind_eq_ok_iff.1 h
  rcases hv : b.values[n]? with _ | _ | w
  case some.some =>
    simp only [hv] at hrest
    obtain ⟨rfl, rfl⟩ := Prod.mk.inj (Except.ok.inj hrest)
    exact .inl ⟨rfl, rfl⟩
  all_goals
    simp only [hv] at hrest
    obtain ⟨node, b₁, hnode, hend⟩ := bind_eq_ok_iff.1 hrest
    obtain ⟨rfl, hn⟩ := node_eq_ok hnode
    have hsize : n < b₁.graph.nodes.size := (Array.getElem?_eq_some_iff.1 hn).1
    cases htag : node.tag
    all_goals simp only [htag] at hend
    case sequence | mapping | set | orderedMap | pairs =>
      obtain ⟨rfl, rfl⟩ := Prod.mk.inj (Except.ok.inj hend)
      exact .inr (.inr ⟨rfl, hsize, rfl⟩)
    case unknown | merge | default => cases hend
    all_goals
      obtain ⟨a, b₂, ha, hdone⟩ := bind_eq_ok_iff.1 hend
      obtain rfl := atom_eq_ok ha
      obtain ⟨rfl, rfl⟩ := Prod.mk.inj (Except.ok.inj hdone)
      exact .inr (.inl ⟨⟨a, rfl⟩, rfl⟩)

theorem accounted_unbuilt (g : Graph) : Accounted none
    ⟨g, Array.replicate g.nodes.size none, Array.replicate g.nodes.size none, []⟩ where
  size := Array.size_replicate.symm
  down := by simp
  values := by simp [Array.getElem?_replicate]
  inner := by
    intro n c hc
    rw [Array.getElem?_replicate] at hc
    split at hc <;> cases hc

theorem Accounted.tell (hb : Accounted filling b) (hon : Onward b b') (hgraph : b'.graph = b.graph)
    (hdown : ∀ m ∈ b'.unfilled, m ∈ b.unfilled ∨ v = .collection m)
    (hvalues : b'.values = b.values.setIfInBounds n (some v)) (hv : Known filling b' v) :
    Accounted filling b' where
  size := by rw [hgraph, hon.collections, hb.size]
  down := by
    intro m hm
    rcases hdown m hm with hm | rfl
    · exact hon.collections ▸ hb.down m hm
    · exact hv.1
  values := by
    intro m x hx
    rw [hvalues, Array.getElem?_setIfInBounds] at hx
    split at hx
    · split at hx
      · obtain rfl := Option.some.inj (Option.some.inj hx)
        exact hv
      · cases hx
    · exact (hb.values m x hx).onward hon
  inner := by
    intro m c hc x hx
    rw [hon.collections] at hc
    exact (hb.inner m c hc x hx).onward hon

theorem tells_value (filling : Option NodeId) (n : NodeId) :
    Tells filling (fun v b => Known filling b v) (value n) := by
  intro b v b' hb h
  rcases value_eq_ok h with ⟨hv, rfl⟩ | ⟨⟨a, rfl⟩, rfl⟩ | ⟨rfl, hn, rfl⟩
  · exact ⟨hb, .refl _, hb.values _ _ hv⟩
  · have hon : Onward b { b with values := b.values.setIfInBounds n (some (.atom a)) } :=
      ⟨rfl, fun _ hm => hm⟩
    exact ⟨hb.tell hon rfl (fun _ hm => .inl hm) rfl trivial, hon, trivial⟩
  · have hon : Onward b { b with
        unfilled := b.unfilled ++ [n],
        values := b.values.setIfInBounds n (some (.collection n)) } :=
      ⟨rfl, fun _ hm => List.mem_append_left _ hm⟩
    have hknown : Known filling { b with
        unfilled := b.unfilled ++ [n], values := b.values.setIfInBounds n (some (.collection n)) }
          (.collection n) :=
      ⟨hb.size ▸ hn, .inr (.inl (List.mem_append_right _ (List.mem_singleton_self n)))⟩
    have hdown : ∀ m ∈ b.unfilled ++ [n], m ∈ b.unfilled ∨ Value.collection n = .collection m := by
      intro m hm
      rw [List.mem_append, List.mem_singleton] at hm
      exact hm.imp_right fun he => congrArg Value.collection he.symm
    exact ⟨hb.tell hon rfl hdown rfl hknown, hon, hknown⟩

theorem tells_couple (filling : Option NodeId) (n : NodeId) :
    Tells filling (fun p b => Known filling b p.1 ∧ Known filling b p.2) (couple n) := by
  intro b p b' hb h
  have hrest := get_bind_eq_ok_iff.1 h
  rcases hpairs : b.graph.pairs? n with _ | _ | ⟨⟨k, v⟩, _ | ⟨q, rest⟩⟩
  case some.cons.nil =>
    simp only [hpairs] at hrest
    obtain ⟨x, b₁, hx, hrest'⟩ := bind_eq_ok_iff.1 hrest
    obtain ⟨y, b₂, hy, hend⟩ := bind_eq_ok_iff.1 hrest'
    obtain ⟨rfl, rfl⟩ := Prod.mk.inj (Except.ok.inj hend)
    obtain ⟨hb₁, hon₁, hknown⟩ := tells_value filling k b x b₁ hb hx
    obtain ⟨hb₂, hon₂, hknown'⟩ := tells_value filling v b₁ y b₂ hb₁ hy
    exact ⟨hb₂, hon₁.trans hon₂, hknown.onward hon₂, hknown'⟩
  all_goals
    simp only [hpairs] at hrest
    cases hrest

theorem tells_enter (filling : Option NodeId)
    {entries found : List (Atom × Value)} {pair : NodeId × NodeId}
    (hb : Accounted filling b) (hentries : ∀ v ∈ entries.map (·.2), Known filling b v)
    (h : enter entries pair b = .ok (found, b')) :
    Accounted filling b' ∧ Onward b b' ∧ ∀ v ∈ found.map (·.2), Known filling b' v := by
  obtain ⟨x, b₁, hx, hrest⟩ := bind_eq_ok_iff.1 h
  obtain ⟨hb₁, hon₁, -⟩ := tells_value filling _ b x b₁ hb hx
  cases x with
  | collection n => cases hrest
  | atom key =>
    obtain ⟨y, b₂, hy, hend⟩ := bind_eq_ok_iff.1 hrest
    obtain ⟨rfl, rfl⟩ := Prod.mk.inj (Except.ok.inj hend)
    obtain ⟨hb₂, hon₂, hknown⟩ := tells_value filling _ b₁ y b₂ hb₁ hy
    refine ⟨hb₂, hon₁.trans hon₂, fun v hv => ?_⟩
    rcases values_insertEntry hv with rfl | hv
    · exact hknown
    · exact (hentries v hv).onward (hon₁.trans hon₂)

theorem tells_foldlM_enter (filling : Option NodeId) {pairs : List (NodeId × NodeId)}
    {entries found : List (Atom × Value)} (hb : Accounted filling b)
    (hentries : ∀ v ∈ entries.map (·.2), Known filling b v)
    (h : pairs.foldlM enter entries b = .ok (found, b')) :
    Accounted filling b' ∧ Onward b b' ∧ ∀ v ∈ found.map (·.2), Known filling b' v := by
  induction pairs generalizing entries b with
  | nil =>
    obtain ⟨rfl, rfl⟩ := Prod.mk.inj (Except.ok.inj h)
    exact ⟨hb, .refl _, hentries⟩
  | cons pair pairs ih =>
    rw [List.foldlM_cons] at h
    obtain ⟨more, b₁, hpair, hrest⟩ := bind_eq_ok_iff.1 h
    obtain ⟨hb₁, hon₁, hmore⟩ := tells_enter filling hb hentries hpair
    obtain ⟨hb₂, hon₂, hfound⟩ := ih hb₁ hmore hrest
    exact ⟨hb₂, hon₁.trans hon₂, hfound⟩

theorem tells_entries (filling : Option NodeId) (count : Nat) (n : NodeId) : Tells filling
    (fun found b => ∀ v ∈ found.map (·.2), Known filling b v) (Builder.entries count n) := by
  intro b found b' hb h
  have hrest := get_bind_eq_ok_iff.1 h
  obtain ⟨⟨u, graph⟩, b₁, hmerge, hrest'⟩ := bind_eq_ok_iff.1 hrest
  obtain ⟨hsize, rfl⟩ := lift_eq_ok hmerge
  have hnodes : graph.nodes.size = b₁.graph.nodes.size :=
    Graph.keepsSize_mergeFrom _ _ _ _ _ _ hsize
  obtain ⟨v, b₂, hset, hfold⟩ := bind_eq_ok_iff.1 hrest'
  obtain ⟨-, rfl⟩ := Prod.mk.inj (Except.ok.inj hset)
  change ((graph.pairs? n).getD []).foldlM enter [] _ = _ at hfold
  have hmerged : Accounted filling { b₁ with graph } :=
    ⟨hnodes.trans hb.size, hb.down, hb.values, hb.inner⟩
  obtain ⟨hb', hon, hfound⟩ := tells_foldlM_enter filling hmerged (by simp) hfold
  exact ⟨hb', ⟨hon.collections, hon.unfilled⟩, hfound⟩

/-- The collection that was being filled has been filled, and all that was known still is. -/
structure Fills (n : NodeId) (b b' : Building) : Prop where
  accounted : Accounted none b'
  known : ∀ v, Known (some n) b v → Known none b' v

theorem join_getElem?_put {n m : NodeId} (c : Collection) (hn : n < b.collections.size) :
    (b.collections.setIfInBounds n (some c))[m]?.join = if n = m then some c
      else b.collections[m]?.join := by
  rw [Array.getElem?_setIfInBounds]
  by_cases hm : n = m
  · subst hm
    simp [hn]
  · simp [hm]

theorem Accounted.put {c : Collection} (hb : Accounted (some n) b) (hn : n < b.collections.size)
    (hc : ∀ v ∈ c.values, Known (some n) b v) :
    Fills n b { b with collections := b.collections.setIfInBounds n (some c) } := by
  have hknown (v : Value) (hv : Known (some n) b v) :
      Known none { b with collections := b.collections.setIfInBounds n (some c) } v := by
    cases v with
    | atom a => trivial
    | collection m =>
      obtain ⟨hm, hwhere⟩ := hv
      refine ⟨by simpa using hm, .inr ?_⟩
      change _ ∨ (b.collections.setIfInBounds n (some c))[m]?.join.isSome
      rw [join_getElem?_put c hn]
      rcases hwhere with he | hdown | hthere
      · exact .inr (by simp [Option.some.inj he])
      · exact .inl hdown
      · exact .inr (by split <;> simp [hthere])
  refine ⟨⟨?_, ?_, fun m v hv => hknown v (hb.values m v hv), ?_⟩, hknown⟩
  · simpa using hb.size
  · simpa using hb.down
  · intro m c' hc' v hv
    change (b.collections.setIfInBounds n (some c))[m]?.join = some c' at hc'
    rw [join_getElem?_put c hn] at hc'
    split at hc'
    · obtain rfl := Option.some.inj hc'
      exact hknown v (hc v hv)
    · exact hknown v (hb.inner m c' hc' v hv)

def Puts (n : NodeId) (x : Builder Unit) : Prop :=
  ∀ b b', Accounted (some n) b → n < b.collections.size → x b = .ok ((), b') → Fills n b b'

theorem puts_of_tells {α : Type} {x : Builder α} {f : α → Collection}
    (hx : Tells (some n) (fun a b => ∀ v ∈ (f a).values, Known (some n) b v) x) : Puts n (do
      let a ← x
      let c ← pure (f a)
      modify fun b => { b with collections := b.collections.setIfInBounds n (some c) }) := by
  intro b b' hb hn h
  obtain ⟨a, b₁, ha, hrest⟩ := bind_eq_ok_iff.1 h
  obtain ⟨-, rfl⟩ := Prod.mk.inj (Except.ok.inj hrest)
  obtain ⟨hb₁, hon, htold⟩ := hx b a b₁ hb ha
  have hfills := hb₁.put (hon.collections ▸ hn) htold
  exact ⟨hfills.accounted, fun v hv => hfills.known v (hv.onward hon)⟩

theorem puts_fill (count : Nat) (n : NodeId) : Puts n (fill count n) := by
  intro b b' hb hn h
  obtain ⟨node, b₁, hnode, hrest⟩ := bind_eq_ok_iff.1 h
  obtain ⟨rfl, -⟩ := node_eq_ok hnode
  suffices hputs : Puts n _ from hputs _ _ hb hn hrest
  have hvalues (items : List NodeId) : Tells (some n)
      (fun found b => ∀ v ∈ found, Known (some n) b v) (items.mapM value) :=
    tells_mapM (fun _ _ _ hv hon => hv.onward hon) (tells_value _) items
  have hpairs (items : List NodeId) : Tells (some n)
      (fun found b => ∀ v ∈ (Collection.pairs found).values, Known (some n) b v)
      (items.mapM couple) := by
    have hcouples := tells_mapM (fun _ _ _ hp hon => ⟨hp.1.onward hon, hp.2.onward hon⟩)
      (tells_couple (some n)) items
    refine hcouples.mono fun found b hfound v hv => ?_
    obtain ⟨p, hp, hv⟩ := List.mem_flatMap.1 hv
    rw [List.mem_cons, List.mem_singleton] at hv
    rcases hv with rfl | rfl
    · exact (hfound p hp).1
    · exact (hfound p hp).2
  split
  · exact puts_of_tells (hvalues _)
  · exact puts_of_tells (hpairs _)
  · exact puts_of_tells (hpairs _)
  · exact puts_of_tells (tells_entries _ _ _)
  · exact puts_of_tells ((tells_entries (some n) count n).mono fun found b _ v hv => by cases hv)
  · intro b b' _ _ h
    cases h

theorem Known.pop {unfilled : List NodeId} (hunfilled : b.unfilled = n :: unfilled)
    (h : Known none b v) : Known (some n) { b with unfilled } v := by
  cases v with
  | atom a => trivial
  | collection m =>
    obtain ⟨hm, hnone | hdown | hthere⟩ := h
    · cases hnone
    · rw [hunfilled, List.mem_cons] at hdown
      exact ⟨hm, hdown.imp (fun he => congrArg some he.symm) .inl⟩
    · exact ⟨hm, .inr (.inr hthere)⟩

theorem Accounted.pop {unfilled : List NodeId} (hb : Accounted none b)
    (hunfilled : b.unfilled = n :: unfilled) : Accounted (some n) { b with unfilled } where
  size := hb.size
  down := fun m hm => hb.down m (hunfilled ▸ List.mem_cons_of_mem _ hm)
  values := fun m v hv => (hb.values m v hv).pop hunfilled
  inner := fun m c hc v hv => (hb.inner m c hc v hv).pop hunfilled

/-- In the end nothing is left to be filled, and all that was known still is. -/
theorem accounted_of_fillAll {count bound : Nat} (hb : Accounted none b)
    (h : fillAll count bound b = .ok ((), b')) :
    Accounted none b' ∧ b'.unfilled = [] ∧ ∀ v, Known none b v → Known none b' v := by
  induction bound generalizing b with
  | zero => cases h
  | succ bound ih =>
    have hrest := get_bind_eq_ok_iff.1 h
    cases hunfilled : b.unfilled with
    | nil =>
      simp only [hunfilled] at hrest
      obtain ⟨-, rfl⟩ := Prod.mk.inj (Except.ok.inj hrest)
      exact ⟨hb, hunfilled, fun v hv => hv⟩
    | cons n unfilled =>
      simp only [hunfilled] at hrest
      obtain ⟨u, b₁, hpop, hrest'⟩ := bind_eq_ok_iff.1 hrest
      obtain ⟨-, rfl⟩ := Prod.mk.inj (Except.ok.inj hpop)
      obtain ⟨u', b₂, hfill, hall⟩ := bind_eq_ok_iff.1 hrest'
      have hn : n < b.collections.size := hb.down n (hunfilled ▸ List.mem_cons_self)
      obtain ⟨hb₂, hknown⟩ := puts_fill count n _ b₂ (hb.pop hunfilled) hn hfill
      obtain ⟨hb', hnone, hknown'⟩ := ih hb₂ hall
      exact ⟨hb', hnone, fun v hv => hknown' v (hknown v (hv.pop hunfilled))⟩

end Builder

/-- A document is closed once all collections that are known have been filled. -/
theorem closed_of_filled {b : Building} {v : Value} (hb : Builder.Accounted none b)
    (hnone : b.unfilled = []) (hv : Builder.Known none b v) : Closed ⟨v, b.collections⟩ := by
  have hhas (x : Value) (hx : Builder.Known none b x) : Has ⟨v, b.collections⟩ x := by
    cases x with
    | atom a => trivial
    | collection n =>
      obtain ⟨-, hfilling | hdown | hthere⟩ := hx
      · cases hfilling
      · rw [hnone] at hdown
        cases hdown
      · exact hthere
  exact ⟨hhas v hv, fun n c hc x hx => hhas x (hb.inner n c hc x hx)⟩

theorem closed_of_ofGraph {root : NodeId} {g : Graph} {d : Document}
    (h : ofGraph root g = .ok d) : d.Closed := by
  obtain ⟨⟨v, b⟩, hbuild, hd⟩ := except_bind_eq_ok_iff.1 h
  obtain rfl := Except.ok.inj hd
  obtain ⟨x, b₁, hroot, hrest⟩ := bind_eq_ok_iff.1 hbuild
  obtain ⟨u, b₂, hall, hend⟩ := bind_eq_ok_iff.1 hrest
  obtain ⟨rfl, rfl⟩ := Prod.mk.inj (Except.ok.inj hend)
  obtain ⟨hb₁, -, hknown⟩ :=
    Builder.tells_value none root _ x b₁ (Builder.accounted_unbuilt g) hroot
  obtain ⟨hb₂, hnone, hkept⟩ := Builder.accounted_of_fillAll hb₁ hall
  exact closed_of_filled hb₂ hnone (hkept x hknown)

/-- Every document that a text spells out is closed. -/
theorem closed_of_ofText {s : List Char} {tear : Option Fault} {d : Document}
    (h : ofText s tear = .ok d) : d.Closed := by
  obtain ⟨⟨root, g⟩, -, hrest⟩ := except_bind_eq_ok_iff.1 h
  cases root with
  | none =>
    obtain rfl := Except.ok.inj hrest
    exact ⟨trivial, fun n c hc => by simp [collection?] at hc⟩
  | some root => exact closed_of_ofGraph hrest

end Document
end ApiScaffold.Yaml
