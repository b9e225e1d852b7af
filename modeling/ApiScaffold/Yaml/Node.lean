import ApiScaffold.Text.CodePoint
import ApiScaffold.Yaml.Tag

/-! Nodes: the structure that a document spells out. Nodes are known by numbers, so an alias is the
number of the node that it names, and a collection may lie within itself. -/
namespace ApiScaffold.Yaml

abbrev NodeId := Nat

inductive Content where
  | scalar (text : List Text.CodePoint)
  | sequence (items : List NodeId)
  | mapping (pairs : List (NodeId × NodeId))
  deriving DecidableEq, Repr

structure Node where
  tag : Tag
  content : Content
  deriving DecidableEq, Repr

structure Graph where
  nodes : Array Node := #[]
  deriving DecidableEq, Repr

namespace Graph

def get? (g : Graph) (n : NodeId) : Option Node :=
  g.nodes[n]?

def tag? (g : Graph) (n : NodeId) : Option Tag :=
  (g.get? n).map (·.tag)

def pairs? (g : Graph) (n : NodeId) : Option (List (NodeId × NodeId)) :=
  match g.get? n with
  | some ⟨_, .mapping pairs⟩ => some pairs
  | _ => none

def add (g : Graph) (node : Node) : NodeId × Graph :=
  (g.nodes.size, ⟨g.nodes.push node⟩)

def setContent (g : Graph) (n : NodeId) (content : Content) : Graph :=
  ⟨g.nodes.modify n fun node => { node with content }⟩

def setTag (g : Graph) (n : NodeId) (tag : Tag) : Graph :=
  ⟨g.nodes.modify n fun node => { node with tag }⟩

def pairCount (g : Graph) : Nat :=
  g.nodes.foldl (fun count node => match node.content with
    | .mapping pairs => count + pairs.length
    | _ => count) 0

theorem get?_setContent (g : Graph) (n m : NodeId) (content : Content) :
    (g.setContent n content).get? m =
      if n = m then (g.get? m).map fun node => { node with content } else g.get? m := by
  simp [setContent, get?, Array.getElem?_modify]

end Graph
end ApiScaffold.Yaml
