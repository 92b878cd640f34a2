import PhpOutline.Error
import PhpOutline.Taxonomy
import PhpOutline.Token

/-!
# Linked tokens

A graph is a list of tokens in which every token knows its neighbours, the nearest code tokens on
both sides, the innermost bracket around it and, for a bracket, its partner. `Graph.link` sets all
links in one pass: what stands before a token is handed down, what stands after it comes back.
-/

namespace PhpOutline

structure Flags where
  matchBrackets : Bool := true
  discardTrivia : Bool := false
deriving DecidableEq

namespace Flags

/-- The flags in the lowest two bits of a number. -/
def ofBits (n : Nat) : Flags := ⟨n.testBit 0, n.testBit 1⟩

def bits (f : Flags) : Nat := f.matchBrackets.toNat + 2 * f.discardTrivia.toNat

end Flags

/-- A token with its links, each the index of another token. -/
structure Node extends Token where
  index : Nat
  prev : Option Nat
  next : Option Nat
  prevCode : Option Nat
  nextCode : Option Nat
  parent : Option Nat
  openedBy : Option Nat
  closedBy : Option Nat
deriving DecidableEq

structure Graph where
  nodes : Array Node
  flags : Flags
  taxonomy : Taxonomy
deriving DecidableEq

namespace Graph

/-! ## Linking -/

/-- What a kind does to the brackets around what follows it. -/
inductive Role
  | opens | closes | plain
deriving DecidableEq

/-- A kind that both opens and closes opens. Without bracket matching every kind is plain. -/
def role (x : Taxonomy) (f : Flags) (k : Kind) : Role :=
  if !f.matchBrackets then .plain
  else if x.isOpener k then .opens
  else if x.isCloser k then .closes
  else .plain

/-- What the tokens before a position leave behind: the last code token and the brackets that are
open, innermost first. -/
structure Before where
  code : Option Nat := none
  opens : List Nat := []

/-- What the tokens from a position on hold ready: the first code token and the closing brackets
whose opening ones stand before the position, first one first. -/
structure After where
  code : Option Nat := none
  closers : List Nat := []

/-- Links the tokens from index `i` on. -/
def linkFrom (x : Taxonomy) (f : Flags) (b : Before) (i : Nat) :
    List Token → Except LexError (List Node × After)
  | [] => .ok ([], {})
  | t :: ts =>
    let r := role x f t.kind
    if r = .closes ∧ b.opens = [] then .error (.unmatchedCloser t.text t.line)
    else
      let code := if x.isTrivia t.kind then b.code else some i
      let opens := match r with
        | .opens => i :: b.opens
        | .closes => b.opens.tail
        | .plain => b.opens
      match linkFrom x f ⟨code, opens⟩ (i + 1) ts with
      | .error e => .error e
      | .ok (nodes, a) =>
        let node : Node :=
          { toToken := t
            index := i
            prev := if i = 0 then none else some (i - 1)
            next := if ts.isEmpty then none else some (i + 1)
            prevCode := b.code
            nextCode := a.code
            parent := (if r = .closes then b.opens.tail else b.opens).head?
            openedBy := if r = .closes then b.opens.head? else none
            closedBy := if r = .opens then a.closers.head? else none }
        let after : After :=
          { code := if x.isTrivia t.kind then a.code else some i
            closers := match r with
              | .opens => a.closers.tail
              | .closes => i :: a.closers
              | .plain => a.closers }
        .ok (node :: nodes, after)

/-- The tokens that are linked: trivia is dropped if the flags say so. -/
def kept (x : Taxonomy) (f : Flags) (ts : List Token) : List Token :=
  if f.discardTrivia then ts.filter (x.isCode ·.kind) else ts

def link (x : Taxonomy) (f : Flags) (ts : List Token) : Except LexError Graph :=
  match linkFrom x f {} 0 (kept x f ts) with
  | .error e => .error e
  | .ok (nodes, _) => .ok ⟨nodes.toArray, f, x⟩

/-! ## Reading a graph -/

section

variable (g : Graph)

def size : Nat := g.nodes.size

def isEmpty : Bool := g.nodes.isEmpty

def text : String := .join (g.nodes.toList.map (·.text))

/-- Fails with the first opening bracket that has no partner. -/
def checkBalanced : Except LexError Unit :=
  match g.nodes.toList.find? fun n => g.taxonomy.isOpener n.kind && n.closedBy.isNone with
  | some n => .error (.unclosedBracket n.text n.line)
  | none => .ok ()

/-- The nodes met on following a link from a node on, nearest first. -/
def trail (link : Node → Option Nat) (n : Node) : List Node :=
  go g.size n
where
  go : Nat → Node → List Node
    | 0, _ => []
    | k + 1, n =>
      match (link n).bind (g.nodes[·]?) with
      | none => []
      | some m => m :: go k m

/-! ## Declaration headers

A declaration header is a run of code tokens that may all stand in a declaration. -/

/-- The header's tokens on one side of a node, nearest first. -/
def headerAlong (link : Node → Option Nat) (n : Node) : List Node :=
  (g.trail link n).takeWhile (g.taxonomy.declarationParts.contains ·.kind)

/-- Whether the header around a token holds a token of some kind. -/
def isDeclarationOf (i : Nat) (k : Kind) : Bool :=
  match g.nodes[i]? with
  | none => false
  | some n =>
    g.taxonomy.declarationParts.contains n.kind &&
      (n.kind == k
        || (g.headerAlong (·.prevCode) n).any (·.kind == k)
        || (g.headerAlong (·.nextCode) n).any (·.kind == k))

end

end Graph

end PhpOutline
