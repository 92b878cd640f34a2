import PhpOutline.Files.Host
import PhpOutline.Files.Path

/-!
# Files in memory

A tree of files as a value: every file has the names on its way from the root, and a directory is
where a file or the working directory is below. `Tree.host` answers as a machine with these files
would.
-/

namespace PhpOutline

structure Tree where
  working : List String
  files : List (List String × List UInt8)

namespace Tree

/-- Adds a file, in the place of one that is there. -/
def insert (t : Tree) (names : List String) (content : List UInt8) : Tree :=
  { t with files := t.files.filter (·.1 ≠ names) ++ [(names, content)] }

section
variable (t : Tree)

def content? (names : List String) : Option (List UInt8) := t.files.lookup names

def isDirectory (names : List String) : Bool :=
  names.isPrefixOf t.working || t.files.any fun f => names.isPrefixOf f.1 && names ≠ f.1

/-- What stands under the given names. -/
def entry? (names : List String) : Option Entry :=
  match t.content? names with
  | some bytes => some (.file bytes.length)
  | none => if t.isDirectory names then some .directory else none

/-- How many bytes a name may have. -/
def maxNameSize : Nat := 255

/-- How many bytes a path may have. -/
def maxPathSize : Nat := 4095

/-- Goes one part of a path further. Only in a directory is there a way on. -/
def step (names : List String) (part : String) : Except FileError (List String) :=
  match t.entry? names with
  | none => .error .notFound
  | some (.file _) => .error .notDirectory
  | some .directory =>
    if part = "" ∨ part = "." then .ok names
    else if part = ".." then .ok names.dropLast
    else if maxNameSize < part.utf8ByteSize then .error .nameTooLong
    else .ok (names ++ [part])

/-- The names to which a path leads. -/
def locate (path : String) : Except FileError (List String) :=
  if path = "" then .error .notFound
  else if maxPathSize < path.utf8ByteSize then .error .nameTooLong
  else (Path.parts path).foldlM t.step (if path.toList.head? = some '/' then [] else t.working)

def look (path : String) : Option Entry :=
  match t.locate path with
  | .error _ => none
  | .ok names => t.entry? names

def read (path : String) : Except FileError (List UInt8) := do
  let names ← t.locate path
  match t.content? names with
  | some bytes => .ok bytes
  | none => .error (if t.isDirectory names then .isDirectory else .notFound)

/-- The names in a directory. -/
def entries (path : String) : List String :=
  match t.locate path with
  | .error _ => []
  | .ok names =>
    ((t.working :: t.files.map (·.1)).filterMap fun f =>
      if names.isPrefixOf f then f[names.length]? else none).eraseDups

def host (named user : Option String) : Host Id where
  look := t.look
  read := t.read
  entries := t.entries
  resolve path := (t.locate path).toOption.getD []
  workingDirectory := Path.ofNames t.working
  settingsVariable := named
  settingsPath := user

end

end Tree

end PhpOutline
