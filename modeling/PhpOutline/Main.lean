import PhpOutline.Command.Run

/-!
# The program

The real machine: files, directories and the environment.
-/

namespace PhpOutline

/-- The place of a path, from the working directory on. -/
def place (path : String) := (IO.FS.DirEntry.mk "." path).path

def lookAt (path : String) : IO (Option Entry) := do
  if path = "" then return none
  try
    let info ← (place path).metadata
    return some (match info.type with
      | .dir => .directory
      | _ => .file info.byteSize.toNat)
  catch _ => return none

def fileErrorOf : IO.Error → FileError
  | .noFileOrDirectory .. => .notFound
  | .permissionDenied .. => .denied
  | .inappropriateType .. => .notDirectory
  | .invalidArgument _ _ "name too long" => .nameTooLong
  | e => .other (toString e)

def readAt (path : String) : IO (Except FileError (List UInt8)) := do
  match ← lookAt path with
  | some .directory => return .error .isDirectory
  | _ =>
    try
      return .ok (← IO.FS.readBinFile (place path)).toList
    catch e => return .error (fileErrorOf e)

/-- The names in a directory, without links that lead to directories. -/
def entriesAt (path : String) : IO (List String) := do
  try
    let entries ← (place path).readDir
    let kept ← entries.toList.filterM fun e => do
      let info ← e.path.symlinkMetadata
      return !(info.type matches .symlink) || !(← e.path.isDir)
    return kept.map (·.fileName)
  catch _ => return []

def resolveAt (path : String) : IO (List String) := do
  try
    return Path.names (← IO.FS.realPath (place path)).toString
  catch _ => return []

/-- The user's settings are in a directory of the program under the one for all programs. -/
def userSettingsPath : IO (Option String) := do
  let file := s!"{programName}/config.toml"
  match ← IO.getEnv "XDG_CONFIG_HOME" with
  | some dir => if dir.startsWith "/" then return some (Path.join dir file)
  | none => pure ()
  match ← IO.getEnv "HOME" with
  | some home => return some (Path.join (Path.join home ".config") file)
  | none => return none

def machine : Host IO where
  look := lookAt
  read := readAt
  entries := entriesAt
  resolve := resolveAt
  workingDirectory := do return (← IO.currentDir).toString
  settingsVariable := IO.getEnv "PHPNAV_CONFIG"
  settingsPath := userSettingsPath

end PhpOutline

def main (args : List String) : IO UInt32 := do
  let outcome ← PhpOutline.run PhpOutline.machine args
  IO.print outcome.stdout
  IO.eprint outcome.stderr
  return outcome.exit
