import Lowering.Tree.Kind

/-
  This file defines trees, append-only stores of nodes in
  which every node knows the parent that owns it.

  A node is owned by at most one parent, the one whose child
  place holds it. Building a node claims its children, which
  must be free; a child is freed by taking it or by replacing
  it. A replaced node stays in the store, unreachable.

  Key definitions include:
    * `Node`
    * `Tree`
    * `TreeFault`
    * `TreeM`
    * `TreeM.inspect`
    * `Tree.node`
    * `Tree.alloc`
    * `Tree.take`
    * `Tree.replaceWith`
    * `Tree.pushChild`
    * `Tree.setRetained`
-/

namespace Lowering

------------------------------------------------------------
-- Nodes And Trees
------------------------------------------------------------

/- A node with its static type, its element and its owner. -/
structure Node where
  kind : NodeKind NodeId
  ty : Option TypeId := none
  element : Option ElementId := none
  parent : Option NodeId := none
  deriving DecidableEq, Inhabited, Repr

/- The nodes of one unit, each at the place of its handle. -/
structure Tree where
  nodes : Array Node := #[]
  deriving DecidableEq, Inhabited, Repr

------------------------------------------------------------
-- Faults
------------------------------------------------------------

/- What ends a run inside a tree. -/
inductive TreeFault
  /- A handle beyond the nodes of the tree. -/
  | outOfBounds
  | alreadyOwned (child owner : NodeId)
  | alreadyParented (child : NodeId)
  | noSuchList (tag : NodeTag) (node : NodeId) (slot : ListSlot)
  | selfReplacement
  | notListed (parent child : NodeId)
  | mislisted
      (tag : NodeTag)
      (node : NodeId)
      (parent : Option NodeId)
      (root : NodeId)
  | notAConstant
  /- Nodes that contain themselves. -/
  | endless
  deriving DecidableEq, Repr

namespace TreeFault

/- The words for the owner that a node may have. -/
def ownerText : Option NodeId → String
  | some owner => s!"Some({owner})"
  | none => "None"

/- The report on a fault. -/
def message : TreeFault → String
  | outOfBounds => "no such node"
  | alreadyOwned child owner =>
    let owner := ownerText (some owner)
    s!"{child} already owned by {owner}; detach it before reparenting"
  | alreadyParented child => s!"{child} already has a parent"
  | noSuchList tag node slot => s!"{tag} node {node} has no {slot} list"
  | selfReplacement => "node replaced with itself"
  | notListed parent child =>
    s!"{parent} does not list its child {child}"
  | mislisted tag node parent root =>
    let owner := ownerText parent
    s!"{tag} node {node} has parent {owner} but is listed elsewhere under {root}"
  | notAConstant =>
    "enum constants must convert to constant declarations"
  | endless => "a node contains itself"

end TreeFault

/- An operation on a tree, which answers or ends the run. -/
abbrev TreeM := EStateM TreeFault Tree

namespace TreeM

/- Answer a question about the tree. -/
def inspect
    {α : Type}
    (question : Tree → Except TreeFault α) : TreeM α :=
  fun tree =>
    match question tree with
    | .ok answer => .ok answer tree
    | .error fault => .error fault tree

end TreeM

namespace Tree

------------------------------------------------------------
-- Reading
------------------------------------------------------------

/- The number of nodes, reachable or not. -/
def size (tree : Tree) : Nat :=
  tree.nodes.size

/- The node at a handle, if there is one. -/
def get? (tree : Tree) (id : NodeId) : Option Node :=
  tree.nodes[id.raw]?

/- The node at a handle. -/
def node (tree : Tree) (id : NodeId) : Except TreeFault Node :=
  match tree.get? id with
  | some node => .ok node
  | none => .error .outOfBounds

/- The tag of a node. -/
def tag (tree : Tree) (id : NodeId) : Except TreeFault NodeTag :=
  return (← tree.node id).kind.tag

/- The children of a node in the order of traversal. -/
def children
    (tree : Tree)
    (id : NodeId) : Except TreeFault (List NodeId) :=
  return (← tree.node id).kind.children

/- The child list of a node; a missing list is empty. -/
def list
    (tree : Tree)
    (id : NodeId)
    (slot : ListSlot) : Except TreeFault (List NodeId) :=
  return ((← tree.node id).kind.list? slot).getD []

------------------------------------------------------------
-- Changing One Node
------------------------------------------------------------

/- Change the node at a handle. -/
def modifyNode
    (id : NodeId)
    (change : Node → Node) : TreeM Unit :=
  fun tree =>
    if id.raw < tree.nodes.size then
      .ok () ⟨tree.nodes.modify id.raw change⟩
    else
      .error .outOfBounds tree

/- Give a node a static type, or none. -/
def setType (id : NodeId) (ty : Option TypeId) : TreeM Unit :=
  modifyNode id ({ · with ty })

/- Give a node an element, or none. -/
def setElement
    (id : NodeId)
    (element : Option ElementId) : TreeM Unit :=
  modifyNode id ({ · with element })

/- Record the owner of a node. -/
def setParent
    (id : NodeId)
    (parent : Option NodeId) : TreeM Unit :=
  modifyNode id ({ · with parent })

/- Give a node another kind. -/
def setKind
    (id : NodeId)
    (kind : NodeKind NodeId) : TreeM Unit :=
  modifyNode id ({ · with kind })

/-
  Ask a node for a retained result, and say whether its kind
  can be asked.
-/
def setRetained (id : NodeId) : TreeM Bool := do
  let node ← TreeM.inspect (·.node id)
  match node.kind.markRetained? with
  | some kind =>
    setKind id kind
    return true
  | none => return false

------------------------------------------------------------
-- Building
------------------------------------------------------------

/- Make a free node the child of an owner. -/
def claim (owner child : NodeId) : TreeM Unit := do
  let node ← TreeM.inspect (·.node child)
  match node.parent with
  | some current => throw (.alreadyOwned child current)
  | none => setParent child (some owner)

/- Make a node, which takes possession of its children. -/
def alloc
    (kind : NodeKind NodeId)
    (ty : Option TypeId)
    (element : Option ElementId) : TreeM NodeId := do
  let id : NodeId := ⟨(← get).size⟩
  kind.children.forM (claim id)
  modify fun ⟨nodes⟩ => ⟨nodes.push { kind, ty, element }⟩
  return id

/- Make a name. -/
def simpleName
    (identifier : Name)
    (element : Option ElementId)
    (ty : Option TypeId) : TreeM NodeId :=
  alloc (.simpleName identifier) ty element

/- Make an integer literal. -/
def numberLiteral (value : Int) (ty : TypeId) : TreeM NodeId :=
  alloc (.numberLiteral value) (some ty) none

------------------------------------------------------------
-- Moving Nodes
------------------------------------------------------------

/-
  Free a node from its owner, so that another can claim it.
  The old owner still lists it and must itself be replaced.
-/
def take (id : NodeId) : TreeM NodeId := do
  setParent id none
  return id

/-
  Put a node into the place of another, which becomes free. A
  node without owner has no place, and nothing changes.
-/
def replaceWith (old new : NodeId) : TreeM Unit := do
  if old = new then
    throw .selfReplacement
  match (← TreeM.inspect (·.node old)).parent with
  | none => return
  | some parent =>
    setParent old none
    let kind := (← TreeM.inspect (·.node parent)).kind
    if old ∈ kind.children then
      setKind parent
        (kind.withChildren (kind.children.replace old new))
    else
      throw (.notListed parent old)
    setParent new (some parent)

/- Append a free node to one of the child lists of another. -/
def pushChild
    (parent : NodeId)
    (slot : ListSlot)
    (child : NodeId) : TreeM Unit := do
  if (← TreeM.inspect (·.node child)).parent.isSome then
    throw (.alreadyParented child)
  let kind := (← TreeM.inspect (·.node parent)).kind
  if (kind.list? slot).isNone then
    throw (.noSuchList kind.tag parent slot)
  setKind parent (kind.append slot child)
  setParent child (some parent)

end Tree

end Lowering
