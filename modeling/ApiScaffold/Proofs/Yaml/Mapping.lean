import ApiScaffold.Yaml.Node.OfTokens

/-! The nodes of block mappings whose keys are scalars and whose values are scalars or such
mappings. -/
namespace ApiScaffold.Yaml.Graph.Reader

open Text (CodePoint)

variable {ts : List Token} {fault : Option Fault} {anchors : List (String × NodeId)}
  {handles : List (String × String)} {g g' : Graph}

def scalarNode (text : List CodePoint) (plain : Bool) : Yaml.Node :=
  ⟨scalarTag none plain text, .scalar text⟩

theorem blockPairs_end (bound : Nat) :
    blockPairs (bound + 1) ⟨.blockEnd :: ts, fault, anchors, handles, g⟩ =
    .ok ([], ⟨ts, fault, anchors, handles, g⟩) :=
  rfl

theorem blockPairs_scalar (bound : Nat) (key value : List CodePoint) (plain plain' : Bool) :
    blockPairs (bound + 3) ⟨.key :: .scalar key plain :: .value :: .scalar value plain' :: ts,
      fault, anchors, handles, g⟩ = (blockPairs (bound + 2) ⟨ts, fault, anchors, handles,
        ⟨(g.nodes.push (scalarNode key plain)).push (scalarNode value plain')⟩⟩).bind fun r =>
      .ok ((g.nodes.size, (g.nodes.push (scalarNode key plain)).size) :: r.1, r.2) :=
  rfl

theorem blockPairs_mapping (bound : Nat) (key : List CodePoint) (plain : Bool) :
    blockPairs (bound + 3)
        ⟨.key :: .scalar key plain :: .value :: .blockMapping :: ts, fault, anchors, handles, g⟩ =
      (node (bound + 1) true true ⟨.blockMapping :: ts, fault, anchors, handles,
        ⟨g.nodes.push (scalarNode key plain)⟩⟩).bind fun v =>
      (blockPairs (bound + 2) v.2).bind fun r => .ok ((g.nodes.size, v.1) :: r.1, r.2) :=
  rfl

theorem node_mapping (bound : Nat) (indentless : Bool) :
    node (bound + 1) true indentless ⟨.blockMapping :: ts, fault, anchors, handles, g⟩ =
      (blockPairs bound ⟨ts, fault, anchors, handles,
        ⟨g.nodes.push ⟨.mapping, .sequence []⟩⟩⟩).bind fun r =>
      .ok (g.nodes.size,
        { r.2 with graph := r.2.graph.setContent g.nodes.size (.mapping r.1) }) := by
  generalize hread : blockPairs bound ⟨ts, fault, anchors, handles,
    ⟨g.nodes.push ⟨.mapping, .sequence []⟩⟩⟩ = read
  have hnode : node (bound + 1) true indentless ⟨.blockMapping :: ts, fault, anchors, handles, g⟩ =
      (read.bind fun r => .ok (Content.mapping r.1, r.2)).bind fun r =>
      .ok (g.nodes.size, { r.2 with graph := r.2.graph.setContent g.nodes.size r.1 }) := hread ▸ rfl
  rw [hnode]
  cases read <;> rfl

/-- A document that is a mapping and nothing else. -/
theorem document_mapping {bound : Nat} {n : NodeId}
    (h : node (bound + 1) true false ⟨.blockMapping :: ts, none, [], handles, g⟩ =
      .ok (n, ⟨[], none, [], handles, g'⟩)) :
    document (bound + 1) ⟨.blockMapping :: ts, none, [], handles, g⟩ =
      .ok (some n, ⟨[], none, [], handles, g'⟩) := by
  have hdocument : document (bound + 1) ⟨.blockMapping :: ts, none, [], handles, g⟩ =
      (node (bound + 1) true false ⟨.blockMapping :: ts, none, [], handles, g⟩).bind fun r =>
      (do
        documentEnds (bound + 1)
        if (← peek?).isNone then return some r.1
        directives (bound + 1) false []
        malformed : Reader (Option NodeId)) r.2 := rfl
  rw [hdocument, h]
  rfl

end ApiScaffold.Yaml.Graph.Reader
