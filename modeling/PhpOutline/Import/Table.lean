import PhpOutline.Import
import PhpOutline.Text.LowerCase

/-!
# Import tables

A table finds the full name for an alias. The case of letters in an alias does not matter, and of
two imports of one kind under one alias the later one counts.
-/

namespace PhpOutline

structure ImportTable where
  entries : List ((ImportKind × String) × String) := []

namespace ImportTable

/-- What an alias is found by. -/
def key (kind : ImportKind) (aliasName : String) : ImportKind × String :=
  (kind, Text.toLower aliasName)

def insert (t : ImportTable) (i : Import) : ImportTable :=
  ⟨(key i.kind i.aliasName, i.name) :: t.entries.filter (·.1 != key i.kind i.aliasName)⟩

def ofList (imports : List Import) : ImportTable := imports.foldl insert {}

def get? (t : ImportTable) (kind : ImportKind) (aliasName : String) : Option String :=
  t.entries.lookup (key kind aliasName)

def size (t : ImportTable) : Nat := t.entries.length

def isEmpty (t : ImportTable) : Bool := t.entries.isEmpty

end ImportTable

end PhpOutline
