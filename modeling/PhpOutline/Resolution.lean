import PhpOutline.Import.Statement
import PhpOutline.Import.Table
import PhpOutline.Lexeme.Word

/-!
# Name resolution

The full name that a name in a view stands for. A name relative to the namespace and a plain name
are put into the namespace, unless the plain name is an alias of an import; a name that starts
with a separator, or has one inside, is full already.
-/

namespace PhpOutline

/-- A name in a namespace; the global namespace has no name. -/
def qualify (space name : String) : String := if space = "" then name else space ++ "\\" ++ name

namespace View

/-- The innermost frame that lies in no type and no member, with those around it. -/
def importScopeOf (f : Frame) : List Frame → View
  | [] => ⟨f, []⟩
  | g :: gs => if f.scope.isNamespaceLevel then ⟨f, g :: gs⟩ else importScopeOf g gs

/-- A name without the separators at its end; one separator alone stays. -/
def withoutTrailing (name : List Char) : List Char :=
  let core := (name.reverse.dropWhile (· == '\\')).reverse
  if core.isEmpty then name.take 1 else core

section

variable (v : View)

/-- The view whose imports count here. -/
def importScope : View := importScopeOf v.toFrame v.outer

def importTable : Except Error ImportTable := do
  return .ofList (← v.importScope.imports.get)

/-- The name that starts at a position: the name segments from there on. -/
def nameAt (i : v.Pos) : Except Error (List Char) :=
  let isSegment (j : v.Pos) := v.graph.taxonomy.nameSegments.contains (v.kind j)
  if isSegment i then
    let segments := (v.between i v.hi).takeWhile isSegment
    .ok (withoutTrailing (segments.flatMap fun j => (v.node j).text.toList))
  else .error (.usage (.notAName (v.node i).text (v.node i).line))

/-- The full name for the name at a mark, among imports of the given kind. -/
def resolve (kind : ImportKind) (m : Mark) : Except Error String := do
  let some space := v.scope.space | throw (.usage .noNamespace)
  let some i := v.position? m | throw (.usage (.foreignToken m.node.text m.node.line))
  let name ← v.nameAt i
  if Lexeme.isRelativeName name then
    return qualify space (.ofList (name.drop 10))
  else
    match name with
    | '\\' :: rest => return .ofList rest
    | _ =>
      if name.contains '\\' then return .ofList name
      else
        let table ← v.importTable
        return (table.get? kind (.ofList name)).getD (qualify space (.ofList name))

end

end View

end PhpOutline
