/-!
# Imports

An import makes the full name of a class, function or constant known under an alias.
-/

namespace PhpOutline

inductive ImportKind
  | class_ | function | constant
deriving DecidableEq

namespace ImportKind

def all : List ImportKind := [class_, function, constant]

def tag : ImportKind → String
  | class_ => "class"
  | function => "function"
  | constant => "constant"

/-- The import kind with a given tag. -/
def ofTag? (s : String) : Option ImportKind := all.find? (·.tag == s)

end ImportKind

/-- The name is in full, without a separator before it. -/
structure Import where
  aliasName : String
  kind : ImportKind
  name : String
deriving DecidableEq

end PhpOutline
