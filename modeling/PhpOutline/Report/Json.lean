import PhpOutline.Graph
import PhpOutline.JsonValue
import PhpOutline.Outline

/-!
# Reports as JSON
-/

namespace PhpOutline.Report

open JsonValue

def importJson (i : Import) : JsonValue :=
  obj [("alias", str i.aliasName), ("kind", str i.kind.tag), ("name", str i.name)]

def valueJson (v : ValueOutline) : JsonValue :=
  obj ([("name", str v.name), ("line", nat v.line)] ++ v.value.toList.map fun s => ("value", str s))

def functionJson (f : FunctionOutline) : JsonValue :=
  obj [("name", str f.name), ("line", nat f.line), ("has_body", bool f.hasBody)]

def typeJson (t : TypeOutline) : JsonValue :=
  obj [("kind", str t.keyword), ("name", str t.name), ("qualified_name", str t.qualifiedName),
    ("line", nat t.line), ("extends", arr (t.parents.map str)),
    ("implements", arr (t.interfaces.map str)), ("constants", arr (t.constants.map valueJson)),
    ("properties", arr (t.properties.map valueJson)), ("methods", arr (t.methods.map functionJson))]

def namespaceJson (n : NamespaceOutline) : JsonValue :=
  obj [("name", str n.name), ("imports", arr (n.imports.map importJson)),
    ("constants", arr (n.constants.map valueJson)),
    ("functions", arr (n.functions.map functionJson)), ("classes", arr (n.types.map typeJson))]

def fileJson (f : FileOutline) : JsonValue :=
  obj (f.path.toList.map (("path", str ·)) ++
    [("namespaces", arr (f.namespaces.map namespaceJson))])

def outlinesJson (files : List FileOutline) : String := render (arr (files.map fileJson))

def nodeJson (n : Node) : JsonValue :=
  let link := ofOption nat
  obj [("kind", str n.kind.tag), ("text", str n.text), ("offset", nat n.offset),
    ("line", nat n.line), ("index", nat n.index), ("prev", link n.prev), ("next", link n.next),
    ("prev_code", link n.prevCode), ("next_code", link n.nextCode), ("parent", link n.parent),
    ("opened_by", link n.openedBy), ("closed_by", link n.closedBy)]

def tokensJson (g : Graph) : String := render (arr (g.nodes.toList.map nodeJson))

end PhpOutline.Report
