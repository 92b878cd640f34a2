import PhpOutline.Decl.Function
import PhpOutline.Decl.Namespace
import PhpOutline.Decl.Property
import PhpOutline.Lexer
import PhpOutline.Outline
import PhpOutline.Outline.Header
import PhpOutline.Settings

/-!
# The outline of a source

`outlineSource` reads a source and lists its declarations, namespace by namespace. The first
error, in the order of the declarations, is the answer if there is one.
-/

namespace PhpOutline

/-- Applies a step to every item; an error that ended the listing comes last. -/
def Listing.mapM {α β : Type} (f : α → Except Error β) (l : Listing α) : Except Error (List β) := do
  let bs ← l.items.mapM f
  match l.error with
  | none => return bs
  | some e => throw e

/-- The line of the token that declares the view's member. -/
def View.memberLine (v : View) : Nat :=
  match v.scope.member with
  | none => 0
  | some tag => tag.declaredBy.node.line

section

variable (s : OutlineSettings)

def outlineValue (i : Item) : ValueOutline where
  name := i.name
  line := i.view.memberLine
  value := if s.includeValues then some i.view.code else none

def outlineValues (l : Listing Item) : Except Error (List ValueOutline) :=
  l.mapM (.ok <| outlineValue s ·)

def outlineFunction (i : Item) : FunctionOutline where
  name := i.name
  line := i.view.memberLine
  hasBody := i.view.anchor.isSome

def outlineFunctions (l : Listing Item) : Except Error (List FunctionOutline) :=
  l.mapM (.ok <| outlineFunction ·)

/-- The outline of a type that was found in the view of a namespace. -/
def outlineType (space : String) (outer : View) (i : Item) : Except Error TypeOutline := do
  let some opener := i.view.anchor | throw (.usage (.typeWithoutAnchor i.name))
  match outer.typeHeader opener with
  | [] => throw (.structural opener.node.line (.typeWithoutKeyword i.name))
  | keyword :: header =>
    let bases ← outer.resolveBases header
    let constants ← outlineValues s i.view.constants
    let properties ← outlineValues s (← i.view.properties)
    let methods ← outlineFunctions i.view.functions
    return {
      keyword := .ofList (keyword.text.toList.map Char.toLower)
      name := i.name
      qualifiedName := qualify space i.name
      line := keyword.line
      parents := (bases.filter (·.1 == .parent)).map (·.2)
      interfaces := (bases.filter (·.1 == .interface)).map (·.2)
      constants := constants
      properties := properties
      methods := methods }

def outlineNamespace (i : Item) : Except Error NamespaceOutline := do
  let imports ← i.view.imports.get
  let constants ← outlineValues s i.view.constants
  let functions ← outlineFunctions i.view.functions
  let types ← i.view.types.mapM (outlineType s i.name i.view)
  return {
    name := i.name
    imports := imports
    constants := constants
    functions := functions
    types := types }

end

/-- The outline of a source's tokens. Brackets are matched whatever the settings say. -/
def outlineTokens (s : Settings) (ts : List Token) : Except Error FileOutline := do
  let graph ← (Graph.link .php { s.lexer.flags with matchBrackets := true } ts).mapError .lex
  let root ← View.ofGraph graph
  let namespaces ← root.namespaces.mapM (outlineNamespace s.outline)
  return { namespaces := namespaces }

def outlineSource (s : Settings) (source : String) : Except Error FileOutline := do
  outlineTokens s (← (tokenize source).mapError .lex)

def outlineBytes (s : Settings) (bytes : List UInt8) : Except Error FileOutline := do
  outlineTokens s (← (tokenizeBytes bytes).mapError .lex)

end PhpOutline
