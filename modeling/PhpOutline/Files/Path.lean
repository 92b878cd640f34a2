import PhpOutline.Settings

/-!
# Paths

A path is a text in which slashes divide names. Empty names and single dots do not count, except
where a file is looked up.
-/

namespace PhpOutline

namespace Path

/-- What stands between the slashes. -/
def parts (path : String) : List String := (path.toList.splitOn '/').map .ofList

/-- The names that a path goes through. -/
def names (path : String) : List String := (parts path).filter fun n => n ≠ "" ∧ n ≠ "."

/-- The absolute path of the given names. -/
def ofNames (names : List String) : String := "/" ++ "/".intercalate names

/-- The path of a name in a directory. -/
def join (dir name : String) : String :=
  if dir = "" ∨ dir.toList.getLast? = some '/' then dir ++ name else dir ++ "/" ++ name

/-- A path without a given start. One that starts otherwise stays as it is. -/
def without (start path : String) : String :=
  match start.toList.isPrefixOf? path.toList with
  | some rest => .ofList rest
  | none => path

/-- Whether a path says by dots only that it stays where it is. -/
def isHere (path : String) : Bool :=
  (parts path).head? = some "." && (names path).isEmpty

/-- A path as seen from a directory: what follows the text of the directory in it. One that does not
start with this text stays as it is, and so does a single name. One `./` before either does not
count. -/
def below (dir path : String) : String :=
  let dir := without "./" dir
  let path := without "./" path
  if isHere dir || !path.toList.contains '/' then path
  else
    match dir.toList.isPrefixOf? path.toList with
    | some rest => without "/" (.ofList rest)
    | none => path

/-- The numbers of the characters, with an end after each name that comes before all of them. -/
def sortKey (path : String) : List Nat :=
  (names path).flatMap fun n => n.toList.map (·.toNat + 1) ++ [0]

/-- The order of lists by their first difference. -/
def lexLe : List Nat → List Nat → Bool
  | [], _ => true
  | _ :: _, [] => false
  | a :: l, b :: r => a < b || (a == b && lexLe l r)

/-- Paths are ordered name by name. -/
def precedes (a b : String) : Bool := lexLe (sortKey a) (sortKey b)

def fileName? (path : String) : Option String := (names path).getLast?.filter (· ≠ "..")

/-- What stands after the last dot of the file name, if anything stands before that dot. -/
def extension (path : String) : String :=
  let name := ((fileName? path).getD "").toList
  let last := name.reverse.takeWhile (· ≠ '.')
  if last.length + 1 < name.length then .ofList last.reverse else ""

end Path

/-- Whether a file is taken for PHP by its name. The case of ASCII letters does not count. -/
def OutlineSettings.accepts (s : OutlineSettings) (path : String) : Bool :=
  let fold (e : String) := e.toList.map Char.toLower
  s.extensions.any fun e => fold e = fold (Path.extension path)

end PhpOutline
