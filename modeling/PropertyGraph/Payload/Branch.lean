import PropertyGraph.Row.Record
import PropertyGraph.Schema.Side

/-!
# The tree of a payload

A nested payload is a tree: a node with its fields, and below each of its edge fields the nodes that the payload puts
there. Writing the tree down gives the rows to store: for each edge field the edges to the nodes below it, then the
rows of those nodes, and last the node itself, so that a node is stored after everything below it.
-/

namespace PropertyGraph

mutual

/-- A node of a payload with what lies below it. -/
inductive Branch where
  | mk (node : Node) (twigs : List Twig)

/-- The nodes below one edge field of a node. -/
inductive Twig where
  | mk (side : EdgeSide) (children : List Branch)

end

/-- The node of a branch. -/
def Branch.node : Branch → Node
  | .mk node _ => node

/-- What lies below the node of a branch, by edge field. -/
def Branch.twigs : Branch → List Twig
  | .mk _ twigs => twigs

/-- The edge field of a twig. -/
def Twig.side : Twig → EdgeSide
  | .mk side _ => side

/-- The branches of a twig. -/
def Twig.children : Twig → List Branch
  | .mk _ children => children

/-- The edge from a node to another along a side of its type. It lies in the partition of the principal end and carries
the name of the type at the other end of it. -/
def EdgeSide.link (side : EdgeSide) (near far : String) (stamp : Stamp) : Edge :=
  if side.principal then ⟨near, side.edgeName, far, side.target, stamp, none⟩
  else ⟨far, side.edgeName, near, side.counterpart.typeName, stamp, none⟩

mutual

/-- The records of a branch: what lies below the node, then the node. -/
def Branch.records : Branch → List Record
  | .mk node twigs => Twig.recordsBelow node twigs ++ [.node node]

/-- The records below a node: for each twig the edges to its nodes, then the records of its branches. -/
def Twig.recordsBelow (parent : Node) : List Twig → List Record
  | [] => []
  | .mk side children :: rest =>
    children.map (fun child => .edge (side.link parent.id child.node.id parent.stamp)) ++ Branch.recordsOf children ++
      Twig.recordsBelow parent rest

/-- The records of branches, one after the other. -/
def Branch.recordsOf : List Branch → List Record
  | [] => []
  | branch :: rest => branch.records ++ Branch.recordsOf rest

end

/-- What a payload comes to: the rows to store, and the ids of its topmost nodes. -/
structure Expansion where
  records : List Record
  roots : List String

/-- The rows and ids of the topmost branches of a payload. -/
def Expansion.ofBranches (branches : List Branch) : Expansion :=
  ⟨Branch.recordsOf branches, branches.map fun branch => branch.node.id⟩

namespace Expansion

/-- How many of the rows are nodes. -/
def nodeCount (e : Expansion) : Nat := (e.records.filterMap Record.node?).length

/-- How many of the rows are edges. -/
def edgeCount (e : Expansion) : Nat := (e.records.filterMap Record.edge?).length

end Expansion

end PropertyGraph
