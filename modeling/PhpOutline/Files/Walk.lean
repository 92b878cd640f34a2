import PhpOutline.Files.Host
import PhpOutline.Files.Ignore
import PhpOutline.Files.Path

/-!
# Finding files

`walk` lists the files below a directory that are taken for PHP and are not too large. Ignored
files are left out, and so are names that start with a dot unless a rule keeps them.
-/

namespace PhpOutline

section
variable {m : Type → Type} [Monad m] (h : Host m) (s : OutlineSettings)

/-- The first line of a file. -/
def firstLine? (path : String) : m (Option String) := do
  match ← h.read path with
  | .ok bytes => return (Text.lines bytes).head?
  | .error _ => return none

/-- The place of the repository of a directory. Where `.git` is a file, it names a place, in which
another file names the one that it shares; a name that starts with a dot is below the first. -/
def repository? (dir : String) : m (Option String) := do
  let git := Path.join dir ".git"
  match ← h.look git with
  | some (.file _) =>
    match (← firstLine? h git).bind fun l => "gitdir: ".toList.isPrefixOf? l.toList with
    | none => return none
    | some place =>
      let place := String.ofList place
      return (← firstLine? h (Path.join place "commondir")).map fun shared =>
        if shared.toList.head? = some '.' then Path.join place shared else shared
  | _ => return some git

def ignoreRules (path : String) : m (List IgnoreRule) := do
  match ← h.read path with
  | .ok bytes => return IgnoreRule.ofBytes bytes
  | .error _ => return []

def ignoreLevel (dir : String) : m IgnoreLevel := do
  let excluded ← match ← repository? h dir with
    | some place => ignoreRules h (Path.join place "info/exclude")
    | none => pure []
  return ⟨dir, ← ignoreRules h (Path.join dir ".ignore"),
    ← ignoreRules h (Path.join dir ".gitignore"), excluded⟩

/-- The rules of the directories above a directory, where a walk is to start. -/
def levelsAbove (start : String) : m IgnoreLevels := do
  let names ← h.resolve start
  let outer ← (List.range names.length).mapM fun n =>
    ignoreLevel h (Path.ofNames (names.take n))
  return ⟨start, Path.ofNames names, [], outer.reverse⟩

def isHidden (name : String) : Bool := name.toList.head? = some '.'

def wanted (path : String) (size : Nat) : Bool := s.accepts path && size ≤ s.maxFileSize

/-- The files below a directory, with at most `fuel` directories below each other. -/
def walkBelow : (fuel : Nat) → (levels : IgnoreLevels) → (dir : String) → m (List String)
  | 0, _, _ => return []
  | fuel + 1, levels, dir => do
    let levels := { levels with inner := (← ignoreLevel h dir) :: levels.inner }
    let found ← (← h.entries dir).mapM fun name => do
      let path := Path.join dir name
      match ← h.look path with
      | none => return []
      | some e =>
        if (levels.keeps? path e.isDirectory).getD !(isHidden name) then
          match e with
          | .file size => return if wanted s path size then [path] else []
          | .directory => walkBelow fuel levels path
        else return []
    return found.flatten

/-- No path has more names than this. -/
def maxPathDepth : Nat := 4096

/-- The wanted files at and below a path, in order. -/
def walk (root : String) : m (List String) := do
  match ← h.look root with
  | none => return []
  | some (.file size) => return if wanted s root size then [root] else []
  | some .directory =>
    return (← walkBelow h s maxPathDepth (← levelsAbove h root) root).mergeSort Path.precedes

end

end PhpOutline
