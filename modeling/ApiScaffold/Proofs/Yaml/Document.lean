import ApiScaffold.Yaml.Document.OfText

/-! The values of mappings whose keys are texts and whose values are texts or mappings. -/
namespace ApiScaffold.Yaml

open Text (CodePoint)

namespace Graph

variable {g : Graph} {n : NodeId} {pairs : List (NodeId × NodeId)}

theorem pairs?_of_get? (h : g.get? n = some ⟨.mapping, .mapping pairs⟩) :
    g.pairs? n = some pairs := by
  rw [pairs?, h]

theorem takeMerge_of_text (h : ∀ p ∈ pairs, g.tag? p.1 = some .text) :
    g.takeMerge pairs = none := by
  induction pairs with
  | nil => rfl
  | cons p pairs ih =>
    have hp := h p List.mem_cons_self
    rw [takeMerge, hp, if_neg (by simp), ih fun q hq => h q (List.mem_cons_of_mem p hq)]
    rfl

theorem plainKeys_of_text (h : ∀ p ∈ pairs, g.tag? p.1 = some .text) : g.plainKeys pairs = g := by
  induction pairs with
  | nil => rfl
  | cons p pairs ih =>
    obtain ⟨k, v⟩ := p
    have hk : (if g.tag? k = some .default then g.setTag k .text else g) = g :=
      if_neg (by simp [h (k, v) List.mem_cons_self])
    rw [plainKeys, List.foldl_cons]
    simp only [hk]
    exact ih fun q hq => h q (List.mem_cons_of_mem _ hq)

theorem setContent_eq_self {node : Yaml.Node} (h : g.get? n = some node) :
    g.setContent n node.content = g := by
  have hnodes : (g.setContent n node.content).nodes = g.nodes := by
    apply Array.ext_getElem?
    intro m
    have hm := get?_setContent g n m node.content
    rw [get?, get?] at hm
    rw [hm]
    split
    · rename_i he
      subst he
      rw [get?] at h
      rw [h]
      rfl
    · rfl
  cases g
  exact congrArg Graph.mk hnodes

/-- Nothing is merged into a mapping whose keys are texts. -/
theorem merge_of_text (h : g.get? n = some ⟨.mapping, .mapping pairs⟩)
    (htext : ∀ p ∈ pairs, g.tag? p.1 = some .text)
    (count : Nat) : merge count n g = .ok ((), g) := by
  have hpairs : (g.pairs? n).getD [] = pairs := by rw [pairs?_of_get? h]; rfl
  have hkept : (set ((g.plainKeys pairs).setContent n (.mapping ([] ++ pairs))) : Merging Unit) g =
      .ok ((), g) := by
    rw [plainKeys_of_text htext]
    exact congrArg (fun g => Except.ok ((), g)) (setContent_eq_self h)
  rw [merge, mergeFrom]
  simp only [bind, StateT.bind, Except.bind, get, getThe, MonadStateOf.get, StateT.get, pure,
    Except.pure, hpairs, takeMerge_of_text htext]
  exact hkept

end Graph

namespace Document.Builder

variable {b b₁ b₂ : Building} {n k v : NodeId} {s : List CodePoint} {pairs : List (NodeId × NodeId)}

theorem node_eq {node : Yaml.Node} (h : b.graph.get? n = some node) :
    Builder.node n b = .ok (node, b) := by
  unfold Builder.node
  simp only [bind, StateT.bind, Except.bind, get, getThe, MonadStateOf.get, StateT.get, pure,
    Except.pure, h]
  rfl

theorem atom_text (h : b.graph.get? n = some ⟨.text, .scalar s⟩) :
    atom n ⟨.text, .scalar s⟩ b = .ok (.text s, b) := by
  have htext (bound : Nat) : b.graph.scalarText (bound + 1) n = .ok s := by rw [Graph.scalarText, h]
  unfold atom
  simp only [bind, StateT.bind, Except.bind, get, getThe, MonadStateOf.get, StateT.get, pure,
    Except.pure, htext]
  rfl

theorem value_text (h : b.graph.get? n = some ⟨.text, .scalar s⟩)
    (hnew : b.values[n]? = some none) :
    value n b = .ok (.atom (.text s),
      { b with values := b.values.setIfInBounds n (some (.atom (.text s))) }) := by
  unfold value
  simp only [bind, StateT.bind, Except.bind, get, getThe, MonadStateOf.get, StateT.get, pure,
    Except.pure, hnew, node_eq h, atom_text h]
  rfl

theorem value_mapping (h : b.graph.get? n = some ⟨.mapping, .mapping pairs⟩)
    (hnew : b.values[n]? = some none) : value n b = .ok (.collection n, { b with
      unfilled := b.unfilled ++ [n],
        values := b.values.setIfInBounds n (some (.collection n)) }) := by
  unfold value
  simp only [bind, StateT.bind, Except.bind, get, getThe, MonadStateOf.get, StateT.get, pure,
    Except.pure, hnew, node_eq h]
  rfl

def enter (entries : List (Atom × Value)) (pair : NodeId × NodeId) :
    Builder (List (Atom × Value)) := do
  match ← value pair.1 with
  | .collection _ => malformed
  | .atom key => return insertEntry key (← value pair.2) entries

theorem insertEntry_of_new {entries : List (Atom × Value)}
    {key : Atom} (h : ∀ e ∈ entries, e.1.sameKey key = false)
    (x : Value) : insertEntry key x entries = entries ++ [(key, x)] := by
  induction entries with
  | nil => rfl
  | cons e entries ih =>
    have he := h e List.mem_cons_self
    rw [insertEntry, if_neg (by simp [he]), ih fun e he => h e (List.mem_cons_of_mem _ he)]
    rfl

/-- There are values for so many nodes, and those from one on are not told yet. -/
def Fresh (size : Nat) (values : Array (Option Value)) (n : Nat) : Prop :=
  values.size = size ∧ ∀ m, n ≤ m → m < size → values[m]? = some none

variable {size : Nat}

theorem fresh_replicate (size n : Nat) : Fresh size (Array.replicate size none) n := by
  refine ⟨Array.size_replicate, fun m _ hm => ?_⟩
  simp [hm]

theorem Fresh.set {n : Nat} {values : Array (Option Value)} (h : Fresh size values n) (x : Value) :
    Fresh size (values.setIfInBounds n (some x)) (n + 1) := by
  refine ⟨by rw [Array.size_setIfInBounds, h.1], fun m hnm hm => ?_⟩
  rw [Array.getElem?_setIfInBounds_ne (by omega), h.2 m (by omega) hm]

/-- Pairs are put into a mapping, which puts down collections to be filled. From a node on no
values are told. -/
def Enters (size : Nat) (b : Building) (pairs : List (NodeId × NodeId))
    (entries : List (Atom × Value)) (n : Nat)
    (result : List (Atom × Value)) (more : List NodeId) : Prop :=
  ∃ values, Fresh size values n ∧
    pairs.foldlM enter entries b = .ok (result, { b with values, unfilled := b.unfilled ++ more })

variable {n m : Nat} {entries result : List (Atom × Value)} {more : List NodeId}

theorem enters_nil (h : Fresh size b.values n) : Enters size b [] entries n entries [] := by
  refine ⟨b.values, h, ?_⟩
  rw [List.append_nil]
  rfl

theorem foldlM_enter {x : Value} (hk : value k b = .ok (.atom (.text s), b₁))
    (hv : value v b₁ = .ok (x, b₂))
    (hnew : ∀ e ∈ entries, e.1.sameKey (.text s) = false) (pairs : List (NodeId × NodeId)) :
    ((k, v) :: pairs).foldlM enter entries b =
      pairs.foldlM enter (entries ++ [(.text s, x)]) b₂ := by
  rw [List.foldlM_cons, ← insertEntry_of_new hnew]
  simp only [enter, bind, StateT.bind, Except.bind, pure, hk, hv]
  rfl

theorem enters_text {t : List CodePoint} (hfresh : Fresh size b.values m) (hsize : m + 1 < size)
    (hk : b.graph.get? m = some ⟨.text, .scalar s⟩)
    (hv : b.graph.get? (m + 1) = some ⟨.text, .scalar t⟩)
    (hnew : ∀ e ∈ entries, e.1.sameKey (.text s) = false) (h : ∀ values, Fresh size values (m + 2) →
      Enters size { b with values } pairs (entries ++ [(.text s, .atom (.text t))]) n result more) :
    Enters size b ((m, m + 1) :: pairs) entries n result more := by
  have hfresh' := hfresh.set (.atom (.text s))
  have hread := foldlM_enter (value_text hk (hfresh.2 m (Nat.le_refl m) (by omega)))
    (value_text hv (hfresh'.2 (m + 1) (Nat.le_refl _) hsize)) hnew pairs
  obtain ⟨values, hlast, hrest⟩ := h _ (hfresh'.set (.atom (.text t)))
  exact ⟨values, hlast, hread.trans hrest⟩

theorem enters_mapping {inner : List (NodeId × NodeId)} (hfresh : Fresh size b.values m)
    (hsize : m + 1 < size) (hk : b.graph.get? m = some ⟨.text, .scalar s⟩)
    (hv : b.graph.get? (m + 1) = some ⟨.mapping, .mapping inner⟩)
    (hnew : ∀ e ∈ entries, e.1.sameKey (.text s) = false) (h : ∀ values, Fresh size values (m + 2) →
      Enters size { b with values, unfilled := b.unfilled ++ [m + 1] } pairs
        (entries ++ [(.text s, .collection (m + 1))]) n result more) :
    Enters size b ((m, m + 1) :: pairs) entries n result ((m + 1) :: more) := by
  have hfresh' := hfresh.set (.atom (.text s))
  have hread := foldlM_enter (value_text hk (hfresh.2 m (Nat.le_refl m) (by omega)))
    (value_mapping hv (hfresh'.2 (m + 1) (Nat.le_refl _) hsize)) hnew pairs
  obtain ⟨values, hlast, hrest⟩ := h _ (hfresh'.set (.collection (m + 1)))
  refine ⟨values, hlast, hread.trans (hrest.trans ?_)⟩
  rw [List.append_assoc]
  rfl

theorem entries_eq {i : NodeId} (h : b.graph.get? i = some ⟨.mapping, .mapping pairs⟩)
    (htext : ∀ p ∈ pairs, b.graph.tag? p.1 = some .text) (count : Nat) :
    Builder.entries count i b = pairs.foldlM enter [] b := by
  have hmerge : (Graph.merge count i).run b.graph = .ok ((), b.graph) :=
    Graph.merge_of_text h htext count
  unfold Builder.entries
  simp only [bind, StateT.bind, Except.bind, get, getThe, MonadStateOf.get, StateT.get, pure,
    Except.pure, hmerge]
  change (((b.graph.pairs? i).getD []).foldlM enter [] : Builder _) b = _
  rw [Graph.pairs?_of_get? h]
  rfl

/-- A mapping whose keys are texts holds what its pairs put into it. -/
theorem fill_mapping {i : NodeId} (h : b.graph.get? i = some ⟨.mapping, .mapping pairs⟩)
    (htext : ∀ p ∈ pairs, b.graph.tag? p.1 = some .text)
    (hread : Enters size b pairs [] n result more) (count : Nat) :
    ∃ values, Fresh size values n ∧ fill count i b = .ok ((), { b with
      values, unfilled := b.unfilled ++ more
      collections := b.collections.setIfInBounds i (some (.mapping result)) }) := by
  obtain ⟨values, hfresh, hread⟩ := hread
  refine ⟨values, hfresh, ?_⟩
  unfold fill
  simp only [bind, StateT.bind, Except.bind, pure, node_eq h, entries_eq h htext, hread]
  rfl

variable {g : Graph} {values : Array (Option Value)} {collections : Array (Option Collection)}

theorem fillAll_nil (count bound : Nat) : fillAll count (bound + 1) ⟨g, values, collections, []⟩ =
    .ok ((), ⟨g, values, collections, []⟩) := by
  rw [fillAll]
  rfl

theorem fillAll_cons {i : NodeId} {rest : List NodeId} {count : Nat}
    (hfill : fill count i ⟨g, values, collections, rest⟩ = .ok ((), b)) (bound : Nat) :
    fillAll count (bound + 1) ⟨g, values, collections, i :: rest⟩ = fillAll count bound b := by
  have hstep : fillAll count (bound + 1) ⟨g, values, collections, i :: rest⟩ =
      (fill count i >>= fun _ => fillAll count bound) ⟨g, values, collections, rest⟩ := by
    rw [fillAll]
    rfl
  rw [hstep]
  simp only [bind, StateT.bind, Except.bind, hfill]

end Document.Builder
end ApiScaffold.Yaml
