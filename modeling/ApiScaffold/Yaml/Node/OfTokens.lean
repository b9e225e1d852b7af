import ApiScaffold.Yaml.Node
import ApiScaffold.Yaml.Token.Stream

/-! Nodes of tokens. -/
namespace ApiScaffold.Yaml.Graph

/-- What is left to read, what the names in it mean, and the nodes read so far. -/
structure Source where
  tokens : List Token
  /-- The fault behind the tokens, if they do not reach the end of the text. -/
  fault : Option Fault
  anchors : List (String × NodeId) := []
  handles : List (String × String) := []
  graph : Graph := {}

abbrev Reader := StateT Source (Except Fault)

namespace Reader

def malformed {α : Type} : Reader α :=
  throw .malformed

def peek? : Reader (Option Token) := do
  let s ← get
  match s.tokens, s.fault with
  | t :: _, _ => return some t
  | [], none => return none
  | [], some fault => throw fault

def drop : Reader Unit :=
  modify fun s => { s with tokens := s.tokens.tail }

def take (t : Token) : Reader Bool := do
  if (← peek?) = some t then
    drop
    return true
  return false

def isAt (ts : List Token) : Reader Bool :=
  return (← peek?).any ts.contains

def anchor? : Reader (Option String) := do
  match ← peek? with
  | some (.anchor name) =>
    drop
    return some name
  | _ => return none

def tag? : Reader (Option TagName) := do
  match ← peek? with
  | some (.tag name) =>
    drop
    return some name
  | _ => return none

/-- An anchor and a tag, in either order. -/
def properties : Reader (Option String × Option TagName) := do
  match ← anchor? with
  | some name => return (some name, ← tag?)
  | none =>
    let tag ← tag?
    if tag.isSome then return (← anchor?, tag)
    return (none, none)

/-- A tag in full. Only handles that mean something may be used. -/
def fullTag (t : TagName) : Reader String := do
  match t.handle with
  | none => return t.suffix
  | some handle =>
    match (← get).handles.lookup handle with
    | some start => return start ++ t.suffix
    | none => malformed

/-- Adds a node that may have a name. A name is given once in a document. -/
def add (anchor : Option String) (node : Node) : Reader NodeId := do
  let s ← get
  let (n, graph) := s.graph.add node
  match anchor with
  | none => set { s with graph }
  | some name =>
    if (s.anchors.lookup name).isSome then malformed
    set { s with graph, anchors := (name, n) :: s.anchors }
  return n

def addCollection (anchor : Option String) (tag : Tag) (content : Reader Content) :
    Reader NodeId := do
  let n ← add anchor ⟨tag, .sequence []⟩
  let content ← content
  modify fun s => { s with graph := s.graph.setContent n content }
  return n

def collectionTag (written : Option String) (usual : Tag) : Tag :=
  match written with
  | none | some "!" => usual
  | some name => .ofName name

/-- The tag of a scalar. Without a tag that says more, it depends on the form if `plain`, and else
it is a text. -/
def scalarTag (written : Option String) (plain : Bool) (text : List Text.CodePoint) : Tag :=
  match written with
  | none => if plain then .ofPlain (Text.CodePoint.toChars text) else .text
  | some "!" => .ofPlain (Text.CodePoint.toChars text)
  | some name => .ofName name

def blank : Reader NodeId :=
  add none ⟨.ofPlain [], .scalar []⟩

/-- What may follow where a node is left out. -/
def blockStops : List Token := [.key, .value, .blockEnd]

mutual

/-- Reads a node. `block` tells whether it may be a block collection, `indentless` whether entries
may stand where they are without a collection of their own. -/
def node : (bound : Nat) → (block indentless : Bool) → Reader NodeId
  | 0, _, _ => malformed
  | bound + 1, block, indentless => do
    if let some (.alias a) ← peek? then
      drop
      match (← get).anchors.lookup a with
      | some node => return node
      | none => malformed
    else
      let (anchor, tag) ← properties
      let tag ← tag.mapM fullTag
      let sequence (items : Reader (List NodeId)) :=
        addCollection anchor (collectionTag tag .sequence) (.sequence <$> items)
      let mapping (pairs : Reader (List (NodeId × NodeId))) :=
        addCollection anchor (collectionTag tag .mapping) (.mapping <$> pairs)
      let scalar (plain : Bool) (text : List Text.CodePoint) :=
        add anchor ⟨scalarTag tag plain text, .scalar text⟩
      match ← peek? with
      | some .blockEntry =>
        if indentless then sequence (entries bound false)
        else if anchor.isSome || tag.isSome then scalar true []
        else malformed
      | some (.scalar text plain) =>
        drop
        scalar plain text
      | some .flowSequence =>
        drop
        sequence (flowItems bound true)
      | some .flowMapping =>
        drop
        mapping (flowPairs bound true)
      | t =>
        if block && t = some .blockSequence then
          drop
          sequence (entries bound true)
        else if block && t = some .blockMapping then
          drop
          mapping (blockPairs bound)
        else if anchor.isSome || tag.isSome then scalar true []
        else malformed

/-- Reads a node, or nothing in front of one of the given tokens. -/
def nodeOr : (bound : Nat) → (stops : List Token) → (block indentless : Bool) → Reader NodeId
  | 0, _, _, _ => malformed
  | bound + 1, stops, block, indentless => do
    if ← isAt stops then blank
    else node bound block indentless

/-- Reads the entries of a block sequence. One with a collection of its own has an end. -/
def entries : (bound : Nat) → (ended : Bool) → Reader (List NodeId)
  | 0, _ => malformed
  | bound + 1, ended => do
    if ← take .blockEntry then
      let item ← nodeOr bound (if ended then [.blockEntry, .blockEnd]
        else .blockEntry :: blockStops) true false
      return item :: (← entries bound ended)
    if ended then
      if !(← take .blockEnd) then malformed
    return []

def blockPairs : (bound : Nat) → Reader (List (NodeId × NodeId))
  | 0 => malformed
  | bound + 1 => do
    if ← take .key then
      let key ← nodeOr bound blockStops true true
      let value ← if ← take .value then nodeOr bound blockStops true true else blank
      return (key, value) :: (← blockPairs bound)
    if !(← take .blockEnd) then malformed
    return []

/-- Reads the items of a flow sequence. An item may be a single pair. -/
def flowItems : (bound : Nat) → (first : Bool) → Reader (List NodeId)
  | 0, _ => malformed
  | bound + 1, first => do
    if ← take .flowSequenceEnd then return []
    if !first then
      if !(← take .flowEntry) then malformed
    if ← take .key then
      let key ← nodeOr bound [.value, .flowEntry, .flowSequenceEnd] false false
      let value ← if ← take .value then nodeOr bound [.flowEntry, .flowSequenceEnd] false false
        else blank
      let pair ← add none ⟨.mapping, .mapping [(key, value)]⟩
      return pair :: (← flowItems bound false)
    if ← take .flowSequenceEnd then return []
    let item ← node bound false false
    return item :: (← flowItems bound false)

/-- Reads the pairs of a flow mapping. A node alone is a key. -/
def flowPairs : (bound : Nat) → (first : Bool) → Reader (List (NodeId × NodeId))
  | 0, _ => malformed
  | bound + 1, first => do
    if ← take .flowMappingEnd then return []
    if !first then
      if !(← take .flowEntry) then malformed
    if ← take .key then
      let key ← nodeOr bound [.value, .flowEntry, .flowMappingEnd] false false
      let value ← if ← take .value then nodeOr bound [.flowEntry, .flowMappingEnd] false false
        else blank
      return (key, value) :: (← flowPairs bound false)
    if ← take .flowMappingEnd then return []
    let key ← node bound false false
    let value ← blank
    return (key, value) :: (← flowPairs bound false)

end

/-- Reads directives. There is one version, which starts with one, and each handle is given one
meaning. -/
def directives : (bound : Nat) → (versioned : Bool) →
    (handles : List (String × String)) → Reader Unit
  | 0, _, _ => malformed
  | bound + 1, versioned, handles => do
    match ← peek? with
    | some (.directive d) =>
      drop
      match d with
      | .version major _ =>
        if versioned || major ≠ 1 then malformed
        directives bound true handles
      | .handle name start =>
        if (handles.lookup name).isSome then malformed
        directives bound versioned ((name, start) :: handles)
      | .other => directives bound versioned handles
    | _ => modify fun s => { s with handles := handles ++ s.handles }

def documentEnds : (bound : Nat) → Reader Unit
  | 0 => malformed
  | bound + 1 => do if ← take .documentEnd then documentEnds bound

/-- Reads the one document of a stream, `none` if the stream is empty. Behind it nothing but
directives is looked at. -/
def document (bound : Nat) : Reader (Option NodeId) := do
  match ← peek? with
  | none => return none
  | some first =>
    let root ←
      match first with
      | .directive _ | .documentStart => do
        directives bound false []
        if !(← take .documentStart) then malformed
        match ← peek? with
        | none | some (.directive _) | some .documentStart | some .documentEnd => blank
        | some _ => node bound true false
      | _ => node bound true false
    documentEnds bound
    if (← peek?).isNone then return some root
    directives bound false []
    malformed

end Reader

def standardHandles : List (String × String) := [("!", "!"), ("!!", Tag.standardStart)]

/-- The nodes that tokens spell out and the root among them, `none` if there are no tokens. A fault
behind the tokens counts once they are not enough. -/
def ofTokens (tokens : List Token) (fault : Option Fault) :
    Except Fault (Option NodeId × Graph) := do
  let (root, source) ←
    (Reader.document (3 * tokens.length + 3)).run { tokens, fault, handles := standardHandles }
  return (root, source.graph)

end ApiScaffold.Yaml.Graph
