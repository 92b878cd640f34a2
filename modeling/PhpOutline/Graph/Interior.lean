import PhpOutline.Graph

/-!
# The inside of a bracket pair

`Graph.interior` cuts the tokens strictly between a bracket and its partner out as a graph of
their own. Indices count from zero again, and a link that led out of the pair is gone.
-/

namespace PhpOutline

namespace Graph

/-- A link of the whole graph as a link of the tokens strictly between two indices. -/
def relink (opener closer : Nat) (link : Option Nat) : Option Nat :=
  (link.filter fun i => opener < i && i < closer).map (· - (opener + 1))

def relinkNode (opener closer : Nat) (n : Node) : Node :=
  { n with
    index := n.index - (opener + 1)
    prev := relink opener closer n.prev
    next := relink opener closer n.next
    prevCode := relink opener closer n.prevCode
    nextCode := relink opener closer n.nextCode
    parent := relink opener closer n.parent
    openedBy := relink opener closer n.openedBy
    closedBy := relink opener closer n.closedBy }

def interior (g : Graph) (opener : Nat) : Except Error Graph :=
  match g.nodes[opener]? with
  | none => .error (.usage (.tokenOutOfRange opener))
  | some n =>
    if g.taxonomy.isOpener n.kind then
      match n.closedBy with
      | none => .error (.lex (.unclosedBracket n.text n.line))
      | some closer =>
        .ok { g with
          nodes := (g.nodes.extract (opener + 1) closer).map (relinkNode opener closer) }
    else .error (.usage (.notAnOpener n.text n.line))

end Graph

end PhpOutline
