import PhpOutline.View.Scan

/-!
# Namespaces

A namespace is declared by its keyword and a name, and then either has a body in braces or holds
all that follows, up to the next namespace of the view. Code before the first keyword lies in the
global namespace, and so does a view without any keyword.
-/

namespace PhpOutline

namespace View

def namespaceKeyword : KindSet := .ofList [.namespaceKw]

section

variable (v : View)

/-- The name after a namespace keyword. -/
def namespaceName? (keyword : v.Pos) : Option v.Pos :=
  (v.nextCode? keyword).filter fun i => v.kind i == .string || v.kind i == .nameQualified

/-- The namespace that a keyword declares, and the index to go on from. -/
def namespaceAt (copy : Nat) (keyword : v.Pos) : Except Error (Item × Nat) := do
  let line := (v.node keyword).line
  let some nameAt := v.namespaceName? keyword
    | throw (.structural line .namespaceWithoutName)
  let name := (v.node nameAt).text
  let scope ← v.scope.enterNamespace name
  let some after := v.nextCodeOrEnd? nameAt
    | throw (.structural line (.namespaceWithoutBody name))
  if v.kind after = .openBrace then
    let close ← v.closer after
    let body ← v.block copy after scope
    return (⟨name, body⟩, close + 1)
  else if v.graph.taxonomy.terminators.contains (v.kind after) then
    let stop := ((v.sibling? namespaceKeyword (after + 1)).map (·.val)).getD v.hi
    return (⟨name, v.span (after + 1) stop scope⟩, after + 1)
  else
    throw (.structural (v.node after).line (.namespaceFollowedBy name (v.node after).text))

/-- The namespaces that keywords declare, from an index on. -/
def declaredNamespaces (copy i : Nat) : Listing Item :=
  v.scan namespaceKeyword (fun p => .ofItem (v.namespaceAt copy p)) i

/-- Puts the part of the view before `stop`, as a piece of the global namespace, first. -/
def withPreamble (stop : Nat) (rest : Listing Item) : Listing Item :=
  match v.scope.enterNamespace "" with
  | .error e => ⟨[], some e⟩
  | .ok scope => rest.after [⟨"", v.span v.lo stop scope⟩]

/-- The namespaces of the view. Each `copy` cuts bodies out anew. -/
def namespaces (copy : Nat := 0) : Listing Item :=
  match v.sibling? namespaceKeyword v.lo with
  | none => v.withPreamble v.hi {}
  | some first =>
    if v.hasCode v.lo first then v.withPreamble first (v.declaredNamespaces copy first)
    else v.declaredNamespaces copy first

/-- Where the enumeration of the namespaces stands: at the start, or at a keyword. -/
inductive NamespaceState
  | start
  | keyword (p : v.Pos)

/-- The namespace at a keyword, and the keyword of the next one. -/
def namespaceStepAt (copy : Nat) (p : v.Pos) :
    Except Error (Option (Item × Option v.NamespaceState)) := do
  let (item, next) ← v.namespaceAt copy p
  return some (item, (v.sibling? namespaceKeyword next).map .keyword)

/-- The part of the view before `stop` in the global namespace. -/
def preambleStep (stop : Nat) (next : Option v.NamespaceState) :
    Except Error (Option (Item × Option v.NamespaceState)) := do
  let scope ← v.scope.enterNamespace ""
  return some (⟨"", v.span v.lo stop scope⟩, next)

def namespaceCursor (copy : Nat) : Cursor v.NamespaceState Item
  | .keyword p => v.namespaceStepAt copy p
  | .start =>
    match v.sibling? namespaceKeyword v.lo with
    | none => v.preambleStep v.hi none
    | some first =>
      if v.hasCode v.lo first then v.preambleStep first (some (.keyword first))
      else v.namespaceStepAt copy first

end

end View

end PhpOutline
