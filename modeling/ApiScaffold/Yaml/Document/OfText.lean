import ApiScaffold.Yaml.Atom.OfText
import ApiScaffold.Yaml.Document
import ApiScaffold.Yaml.Node.Merge
import ApiScaffold.Yaml.Node.OfTokens

/-! Documents of texts. Collections are filled one after another in the order in which they are met,
so of several faults the nearest to the root counts, and of those as near the first. -/
namespace ApiScaffold.Yaml

open Text (CodePoint)

/-- The text of a node with a tag for atoms. A mapping has the text of its default key. -/
def Graph.scalarText (g : Graph) : (bound : Nat) → NodeId → Except Fault (List CodePoint)
  | 0, _ => .error .endless
  | bound + 1, n =>
    match g.get? n with
    | some ⟨_, .scalar s⟩ => .ok s
    | some ⟨_, .mapping pairs⟩ =>
      match pairs.find? fun (k, _) => g.tag? k = some .default with
      | some (_, v) => g.scalarText bound v
      | none => .error .malformed
    | _ => .error .malformed

namespace Document

/-- What is known while the values of nodes are told: the nodes, the values so far, and the
collections that are still to be filled, the next one first. -/
structure Building where
  graph : Graph
  values : Array (Option Value)
  collections : Array (Option Collection)
  unfilled : List NodeId := []

abbrev Builder := StateT Building (Except Fault)

namespace Builder

def malformed {α : Type} : Builder α :=
  throw .malformed

def node (n : NodeId) : Builder Node := do
  match (← get).graph.get? n with
  | some node => return node
  | none => malformed

/-- The atom of a node. A time has to be a scalar itself. -/
def atom (n : NodeId) (node : Node) : Builder Atom := do
  let g := (← get).graph
  let s ← g.scalarText (g.nodes.size + 1) n
  if node.tag = .timestamp && !(node.content matches .scalar _) then throw .timeOfMapping
  Atom.ofText n node.tag s

/-- The value of a node, which is told only once. A collection is put down to be filled. -/
def value (n : NodeId) : Builder Value := do
  if let some (some v) := (← get).values[n]? then return v
  let node ← node n
  let v ← match node.tag with
    | .sequence | .mapping | .set | .orderedMap | .pairs => do
      modify fun b => { b with unfilled := b.unfilled ++ [n] }
      pure (.collection n)
    | .unknown | .merge | .default => malformed
    | _ => do pure (.atom (← atom n node))
  modify fun b => { b with values := b.values.setIfInBounds n (some v) }
  return v

/-- The entries of a mapping, behind those that are merged into it. Keys must be atoms. Later
entries replace earlier ones with the same key. -/
def entries (pairCount : Nat) (n : NodeId) : Builder (List (Atom × Value)) := do
  let b ← get
  let (_, graph) ← (Graph.merge pairCount n).run b.graph
  set { b with graph }
  ((graph.pairs? n).getD []).foldlM (fun entries (k, v) => do
    match ← value k with
    | .collection _ => malformed
    | .atom key => return insertEntry key (← value v) entries) []

def couple (n : NodeId) : Builder (Value × Value) := do
  match (← get).graph.pairs? n with
  | some [(k, v)] => return (← value k, ← value v)
  | _ => malformed

def fill (pairCount : Nat) (n : NodeId) : Builder Unit := do
  let node ← node n
  let c ← match node.tag, node.content with
    | .sequence, .sequence items => do pure (Collection.list (← items.mapM value))
    | .orderedMap, .sequence items | .pairs, .sequence items =>
      do pure (.pairs (← items.mapM couple))
    | .mapping, .mapping _ => do pure (.mapping (← entries pairCount n))
    | .set, .mapping _ => do pure (.set ((← entries pairCount n).map (·.1)))
    | _, _ => malformed
  modify fun b => { b with collections := b.collections.setIfInBounds n (some c) }

/-- Fills collections until none is left. Each is put down once, so there are no more than nodes. -/
def fillAll (pairCount : Nat) : (bound : Nat) → Builder Unit
  | 0 => malformed
  | bound + 1 => do
    match (← get).unfilled with
    | [] => return
    | n :: unfilled =>
      modify fun b => { b with unfilled }
      fill pairCount n
      fillAll pairCount bound

end Builder

def ofGraph (root : NodeId) (g : Graph) : Except Fault Document := do
  let build : Builder Value := do
    let v ← Builder.value root
    Builder.fillAll g.pairCount (g.nodes.size + 1)
    return v
  let (v, b) ← build.run ⟨g, Array.replicate g.nodes.size none,
    Array.replicate g.nodes.size none, []⟩
  return ⟨v, b.collections⟩

/-- The document that a text spells out; null if there is none. A text may be torn by a fault. -/
def ofText (s : List Char) (tear : Option Fault) : Except Fault Document := do
  let (tokens, fault) := Token.ofText s tear
  match ← Graph.ofTokens tokens fault with
  | (none, _) => return ⟨.atom .null, #[]⟩
  | (some root, g) => ofGraph root g

end Document
end ApiScaffold.Yaml
