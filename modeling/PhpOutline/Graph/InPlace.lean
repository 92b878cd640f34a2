import PhpOutline.Graph

/-!
# Linking in place

Nodes that carry links already, left from whatever list they stood in, are linked anew in place. One
pass goes up the nodes and sets every link that is told by what stands before a node, a second one
goes down and sets the next code. A code link is copied from the neighbour that was linked just
before, so that no run of trivia is searched.
-/

namespace PhpOutline

namespace Graph

/-- The code before index `i`: the node right before it or, if that is trivia, the code before
that. -/
def codeBelow (x : Taxonomy) (nodes : Array Node) : Nat → Option Nat
  | 0 => none
  | p + 1 => nodes[p]?.bind fun n => if x.isTrivia n.kind then n.prevCode else some p

/-- The code behind index `i`: the node right behind it or, if that is trivia, the code behind
that. -/
def codeAbove (x : Taxonomy) (nodes : Array Node) (i : Nat) : Option Nat :=
  nodes[i + 1]?.bind fun n => if x.isTrivia n.kind then n.nextCode else some (i + 1)

/-- How far the pass up has come: the nodes, and the brackets that are open, innermost first. -/
structure Ascent where
  nodes : Array Node
  opens : List Nat := []

namespace Ascent

/-- Node `i` with the links that are told by what stands before it. The next code stays as it
was. -/
def node (x : Taxonomy) (a : Ascent) (i : Nat) (n : Node) (parent openedBy : Option Nat) : Node :=
  { n with
    index := i
    prev := if i = 0 then none else some (i - 1)
    next := if i + 1 < a.nodes.size then some (i + 1) else none
    prevCode := codeBelow x a.nodes i
    parent := parent
    openedBy := openedBy
    closedBy := none }

/-- Links node `i`. A closing bracket lies in the same bracket as its partner, and becomes known to
it. -/
def step (x : Taxonomy) (f : Flags) (a : Ascent) (i : Nat) : Except LexError Ascent :=
  match a.nodes[i]? with
  | none => .ok a
  | some n =>
    match role x f n.kind, a.opens with
    | .plain, opens => .ok ⟨a.nodes.setIfInBounds i (a.node x i n opens.head? none), opens⟩
    | .opens, opens => .ok ⟨a.nodes.setIfInBounds i (a.node x i n opens.head? none), i :: opens⟩
    | .closes, [] => .error (.unmatchedCloser n.text n.line)
    | .closes, o :: opens =>
      let parent := a.nodes[o]?.bind (·.parent)
      let nodes := a.nodes.modify o fun opener => { opener with closedBy := some i }
      .ok ⟨nodes.setIfInBounds i (a.node x i n parent (some o)), opens⟩

end Ascent

/-- Sets the next code of node `i`. -/
def descend (x : Taxonomy) (i : Nat) (nodes : Array Node) : Array Node :=
  nodes.modify i fun n => { n with nextCode := codeAbove x nodes i }

def linkInPlace (x : Taxonomy) (f : Flags) (nodes : Array Node) : Except LexError Graph :=
  let nodes := if f.discardTrivia then nodes.filter (x.isCode ·.kind) else nodes
  match (List.range nodes.size).foldlM (Ascent.step x f) ⟨nodes, []⟩ with
  | .error e => .error e
  | .ok a => .ok ⟨(List.range nodes.size).foldr (descend x) a.nodes, f, x⟩

end Graph

end PhpOutline
