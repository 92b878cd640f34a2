/-!
# The machine

What the program asks of the machine that it runs on, as a record of actions of a monad. The same
walk and the same commands then run on real files and on a tree of files that is only a value.
-/

namespace PhpOutline

/-- Why a file cannot be read. -/
inductive FileError
  | notFound
  | notDirectory
  | isDirectory
  | nameTooLong
  | denied
  | notText
  | other (text : String)
deriving DecidableEq

def FileError.message : FileError → String
  | notFound => "No such file or directory (os error 2)"
  | notDirectory => "Not a directory (os error 20)"
  | isDirectory => "Is a directory (os error 21)"
  | nameTooLong => "File name too long (os error 36)"
  | denied => "Permission denied (os error 13)"
  | notText => "stream did not contain valid UTF-8"
  | other text => text

/-- What stands at a path. -/
inductive Entry
  | file (size : Nat)
  | directory
deriving DecidableEq

def Entry.isDirectory : Entry → Bool
  | directory => true
  | file _ => false

structure Host (m : Type → Type) where
  look : String → m (Option Entry)
  read : String → m (Except FileError (List UInt8))
  /-- The names in a directory, in any order. -/
  entries : String → m (List String)
  /-- The names on the way from the root to a directory. -/
  resolve : String → m (List String)
  workingDirectory : m String
  /-- The path of the settings, if the environment gives one. -/
  settingsVariable : m (Option String)
  /-- The path at which the user may have settings, if there is a place for them. -/
  settingsPath : m (Option String)

end PhpOutline
