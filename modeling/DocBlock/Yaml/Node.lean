import DocBlock.Yaml.Tag

/-! The nodes of a document. A node is known by its number, so that it can occur in several places,
also inside itself. -/

namespace DocBlock.Yaml

inductive Node where
  | scalar (tag : Tag) (text : Text)
  | sequence (tag : Tag) (items : List Nat)
  | mapping (tag : Tag) (entries : List (Nat × Nat))
  deriving DecidableEq, Repr, Inhabited

namespace Node

def tag : Node → Tag
  | scalar tag _ | sequence tag _ | mapping tag _ => tag

def setTag (tag : Tag) : Node → Node
  | scalar _ text => scalar tag text
  | sequence _ items => sequence tag items
  | mapping _ entries => mapping tag entries

end Node

structure Graph where
  nodes : Array Node := #[]
  deriving DecidableEq, Repr, Inhabited

namespace Graph

/-- The node of that number; an empty scalar if there is none. -/
def get (g : Graph) (i : Nat) : Node := g.nodes[i]?.getD (.scalar .null [])

def set (g : Graph) (i : Nat) (n : Node) : Graph := { nodes := g.nodes.setIfInBounds i n }

def add (g : Graph) (n : Node) : Graph × Nat := ({ nodes := g.nodes.push n }, g.nodes.size)

end Graph

end DocBlock.Yaml
