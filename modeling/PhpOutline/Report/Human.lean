import PhpOutline.Import.Clause
import PhpOutline.Outline
import PhpOutline.Text.Quoted

/-!
# Reports for people

Outlines and linked tokens, one line for each thing that is listed.
-/

namespace PhpOutline.Report

/-- Lines as a text; every line is ended. -/
def unlines (lines : List String) : String := .join (lines.map (· ++ "\n"))

/-! ## Outlines -/

/-- The first line of a value, shortened, and a mark if there is more. -/
def preview (value : String) : String :=
  let line := value.toList.takeWhile (· ≠ '\n')
  let rest := value.toList.drop line.length
  let first :=
    if rest.isEmpty then line
    else if line.getLast? = some '\r' then line.dropLast
    else line
  if first.length > 60 then .ofList (first.take 57) ++ "..."
  else if rest.length > 1 then .ofList first ++ " ..."
  else .ofList first

def importWord : ImportKind → String
  | .class_ => ""
  | .function => "function "
  | .constant => "const "

def importLine (i : Import) : String :=
  let full := "  use " ++ importWord i.kind ++ i.name
  if View.finalSegment i.name = i.aliasName then full else full ++ " as " ++ i.aliasName

def valueLine (lead : String) (v : ValueOutline) : String :=
  match v.value with
  | none => lead ++ v.name
  | some value => if value = "" then lead ++ v.name else lead ++ v.name ++ " = " ++ preview value

def functionLine (indent : String) (f : FunctionOutline) : String :=
  let stop := if f.hasBody then "" else ";"
  s!"{indent}function {f.name}(){stop}  (line {f.line})"

/-- The types that a type builds on, behind the word for how it does. -/
def baseList (word : String) (names : List String) : String :=
  if names.isEmpty then "" else s!" {word} " ++ ", ".intercalate names

def typeLine (t : TypeOutline) : String :=
  s!"  {t.keyword} {t.name}" ++ baseList "extends" t.parents ++
    baseList "implements" t.interfaces ++ s!"  (line {t.line})"

def typeLines (t : TypeOutline) : List String :=
  typeLine t :: t.constants.map (valueLine "    const ") ++ t.properties.map (valueLine "    $") ++
    t.methods.map (functionLine "    ")

def namespaceLine (n : NamespaceOutline) : String :=
  let name := if n.name = "" then "(global)" else n.name
  s!"namespace {name}"

def namespaceLines (n : NamespaceOutline) : List String :=
  namespaceLine n :: n.imports.map importLine ++ n.constants.map (valueLine "  const ") ++
    n.functions.map (functionLine "  ") ++ n.types.flatMap typeLines

def fileLines (f : FileOutline) : List String :=
  f.path.toList ++ f.namespaces.flatMap namespaceLines

/-- Outlines of files, with an empty line between each two. -/
def outlines (files : List FileOutline) : String :=
  if files.isEmpty then "No PHP files found\n"
  else unlines ([""].intercalate (files.map fileLines))

end PhpOutline.Report
