import SolText.Node.Basic

/-!
# Forests of nodes

Nodes are kept in the order in which they were added, and a node's handle is its place in that order.
A node is added after its children, which it adopts; no node is adopted twice. So children have
smaller handles than their parents, and the nodes form trees.

* `Forest.add`: what comes of adding a node, and the forest afterwards.
* `Forest.ofNodes`: the forest of a list of nodes.
* `Forest.Built`: the forests that come about by adding nodes.
-/

namespace SolText

/-- Why a node could not be looked up or added. -/
inductive ForestError where
  | unknown (handle : Handle)
  | adopted (child parent : Handle)
  deriving DecidableEq, Repr

/-- The wording of a problem with a forest. -/
def ForestError.message : ForestError → String
  | unknown handle => "Node " ++ handle.text ++ " is not part of this tree"
  | adopted child parent => "Node " ++ child.text ++ " already has parent " ++ parent.text

/-- A node in a forest, with the node that adopted it and the nodes that it adopted. -/
structure Entry where
  node : Node
  parent : Option Handle
  children : List Handle

/-- Nodes in the order in which they were added. -/
structure Forest where
  entries : Array Entry := #[]

namespace Forest

/-- The number of nodes. -/
def size (forest : Forest) : Nat := forest.entries.size

/-- Whether there are no nodes. -/
def isEmpty (forest : Forest) : Bool := forest.entries.isEmpty

/-- The node with the given handle. -/
def node? (forest : Forest) (handle : Handle) : Option Node := forest.entries[handle]?.map Entry.node

/-- The node with the given handle, which has to be known. -/
def node (forest : Forest) (handle : Handle) : Except ForestError Node :=
  match forest.node? handle with
  | some node => .ok node
  | none => .error (.unknown handle)

/-- The kind of a node, which has to be known. -/
def kind (forest : Forest) (handle : Handle) : Except ForestError Kind :=
  (forest.node handle).map Node.kind

/-- The node that adopted a node. -/
def parent (forest : Forest) (handle : Handle) : Option Handle :=
  forest.entries[handle]?.bind Entry.parent

/-- The children of a node; an unknown node has none. -/
def children (forest : Forest) (handle : Handle) : List Handle :=
  match forest.entries[handle]? with
  | some entry => entry.children
  | none => []

/-- The handle in front of `handle` in a list. -/
def predecessor (handle : Handle) : List Handle → Option Handle
  | first :: second :: rest =>
    if first = handle then none
    else if second = handle then some first
    else predecessor handle (second :: rest)
  | _ => none

/-- The child of the same parent that comes before a node. -/
def previousSibling (forest : Forest) (handle : Handle) : Option Handle :=
  (forest.parent handle).bind fun parent => predecessor handle (forest.children parent)

/-- The nodes that no node has adopted, in increasing order. -/
def roots (forest : Forest) : List Handle :=
  (List.range forest.size).filter fun handle => (forest.parent handle).isNone

/-- The parents upward from `next`, at most `fuel` of them. -/
def lineage (forest : Forest) : (fuel : Nat) → (next : Option Handle) → List Handle
  | fuel + 1, some handle => handle :: lineage forest fuel (forest.parent handle)
  | _, _ => []

/-- The parent of a node, the parent's parent and so on. -/
def ancestors (forest : Forest) (handle : Handle) : List Handle :=
  forest.lineage forest.size (forest.parent handle)

/-- How many levels in a node is written: the number of scopes around it. -/
def nesting (forest : Forest) (handle : Handle) : Nat :=
  (forest.ancestors handle).countP fun ancestor =>
    match forest.node? ancestor with
    | some node => node.kind.isScope
    | none => false

/-! ### Adding nodes -/

/-- A change of a forest, which may be refused on the way. What has been changed by then is not
undone. -/
abbrev Growth := ExceptT ForestError (StateM Forest)

/-- What is wrong with a child of a new node: it has to be known, without a parent, and not among those
already `seen`. -/
def childFault? (forest : Forest) (seen : List Handle) (child : Handle) : Option ForestError :=
  match forest.entries[child]? with
  | none => some (.unknown child)
  | some entry =>
    match entry.parent with
    | some parent => some (.adopted child parent)
    | none => if seen.contains child then some (.adopted child forest.size) else none

/-- Checks the children of a new node one after another. The first that is at fault is reported. -/
def checkChildren (seen : List Handle) : List Handle → Growth Unit
  | [] => return ()
  | child :: rest => do
    match (← get).childFault? seen child with
    | some fault => throw fault
    | none => checkChildren (child :: seen) rest

/-- The entries with `parent` as the parent of the given children. -/
def adopt (parent : Handle) (entries : Array Entry) (children : List Handle) : Array Entry :=
  children.foldl
    (fun entries child => entries.modify child fun entry => { entry with parent := some parent })
    entries

/-- Adds a node, whose handle is the size of the forest before. Its children have to be known and
distinct and must not have a parent yet; the new node becomes their parent. -/
def grow (node : Node) : Growth Handle := do
  let handle := (← get).size
  let children := node.children
  checkChildren [] children
  modify fun forest => ⟨adopt handle forest.entries children⟩
  modify fun forest => ⟨forest.entries.push { node, parent := none, children }⟩
  return handle

/-- What comes of adding a node to a forest: its handle or why it was refused, and the forest
afterwards. -/
def add (forest : Forest) (node : Node) : Except ForestError Handle × Forest := (grow node).run forest

/-- The forest with one more node, if it can be added. -/
def extend (forest : Forest) (node : Node) : Except ForestError Forest :=
  match forest.add node with
  | (.ok _, next) => .ok next
  | (.error error, _) => .error error

/-- The forest of the given nodes, added one after another. -/
def ofNodes (nodes : List Node) : Except ForestError Forest := nodes.foldlM extend {}

/-- The forests that come about by adding nodes to the empty one. -/
inductive Built : Forest → Prop where
  | empty : Built {}
  | add {forest next : Forest} {node : Node} {handle : Handle} :
      Built forest → forest.add node = (.ok handle, next) → Built next

end Forest

end SolText
