import PhpOutline.Graph.Interior
import PhpOutline.Lexer
import PhpOutline.View.Scope

/-!
# Views

A view is a range of a graph with the scope that it lies in and the views that it was taken from.
A span of a view lies on the same graph; a block is the inside of a bracket, on a graph of its
own, and remembers the bracket as its anchor.
-/

namespace PhpOutline

/-- A range of a graph: the indices from `lo` up to and without `hi`. -/
structure Frame where
  graph : Graph
  arena : Arena
  lo : Nat
  hi : Nat
  anchor : Option Mark
  scope : Scope
deriving DecidableEq

/-- A frame with the frames around it, innermost first. -/
structure View extends Frame where
  outer : List Frame
deriving DecidableEq

namespace View

/-- The view of a whole graph. The graph needs matched brackets, and every bracket a partner. -/
def ofGraph (g : Graph) : Except Error View :=
  if g.flags.matchBrackets then
    match g.checkBalanced with
    | .error e => .error (.lex e)
    | .ok () =>
      .ok { graph := g, arena := .source, lo := 0, hi := g.size, anchor := none, scope := {},
            outer := [] }
  else .error (.usage .bracketsNotMatched)

section

variable (v : View)

def parent? : Option View :=
  match v.outer with
  | [] => none
  | f :: fs => some ⟨f, fs⟩

/-- A position in the view's graph. -/
abbrev Pos : Type := Fin v.graph.nodes.size

def pos? (i : Nat) : Option v.Pos :=
  if h : i < v.graph.nodes.size then some ⟨i, h⟩ else none

def node (i : v.Pos) : Node := v.graph.nodes[i]

def kind (i : v.Pos) : Kind := (v.node i).kind

def mark (i : v.Pos) : Mark := ⟨v.arena, v.node i⟩

/-- The nodes of the view, in order. -/
def nodes : List Node := (v.graph.nodes.extract v.lo v.hi).toList

def isEmpty : Bool := v.hi ≤ v.lo

/-- The text of the view, trivia included. -/
def text : String := .join (v.nodes.map (·.text))

/-- The text of the view from its first to its last code token. -/
def code : String :=
  let isTrivia (n : Node) := v.graph.taxonomy.isTrivia n.kind
  .join ((((v.nodes.dropWhile isTrivia).reverse.dropWhile isTrivia).reverse).map (·.text))

/-- The part of the view from `lo` up to and without `hi`. -/
def span (lo hi : Nat) (scope : Scope) : View where
  graph := v.graph
  arena := v.arena
  lo := lo
  hi := hi
  anchor := none
  scope := scope
  outer := v.toFrame :: v.outer

/-- The inside of a bracket. -/
def block (copy : Nat) (opener : v.Pos) (scope : Scope) : Except Error View :=
  match v.graph.interior opener with
  | .error e => .error e
  | .ok g =>
    .ok { graph := g, arena := .block v.arena opener copy, lo := 0, hi := g.size,
          anchor := some (v.mark opener), scope := scope, outer := v.toFrame :: v.outer }

end

/-- Splits a source into tokens, links them and views the whole. -/
def ofSource (source : String) (f : Flags := {}) : Except Error View := do
  let ts ← (tokenize source).mapError .lex
  let graph ← (Graph.link .php f ts).mapError .lex
  ofGraph graph

end View

end PhpOutline
