import PhpOutline.Files.Glob
import PhpOutline.Files.Path
import PhpOutline.Text.Ranges
import PhpOutline.Text.Utf8

/-!
# Ignored files

A file of patterns says which files of its directory and below are ignored. Of the lines that
match a path, the last one decides, and a line that starts with `!` keeps what earlier ones
ignore.
-/

namespace PhpOutline

/-- A line: whether it keeps or ignores what it matches, and whether it is about directories
only. -/
structure IgnoreRule where
  keeps : Bool
  onlyDirs : Bool
  glob : Glob

namespace IgnoreRule

/-- A line without the blanks at its end, unless the last one is escaped. -/
def trimEnd (line : List Char) : List Char :=
  match line.reverse with
  | ' ' :: '\\' :: _ => line
  | l => (l.dropWhile Text.isBlank).reverse

/-- A line without a slash at its end, and whether there was one. -/
def splitSlash (line : List Char) : Bool × List Char :=
  match line.reverse with
  | '/' :: '\\' :: l => (true, l.reverse)
  | '/' :: l => (true, l.reverse)
  | _ => (false, line)

/-- The pattern that a line stands for. One without a slash matches in every directory, and one
that ends with a double star matches what is in a directory, but not the directory. -/
def pattern (anchored : Bool) (line : List Char) : List Char :=
  let stars := "**/".toList
  let p :=
    if anchored || line.contains '/' || line == "**".toList then line else stars ++ line
  if "/**".toList.isSuffixOf p then p ++ "/*".toList else p

/-- The rule in a line, if there is one. -/
def ofLine? (line : List Char) : Option IgnoreRule :=
  if line.head? = some '#' then none
  else
    let line := trimEnd line
    if line.isEmpty then none
    else
      let (keeps, anchored, line) := match line with
        | '\\' :: '!' :: s => (false, false, '!' :: s)
        | '\\' :: '#' :: s => (false, false, '#' :: s)
        | '!' :: '/' :: s => (true, true, s)
        | '!' :: s => (true, false, s)
        | '/' :: s => (false, true, s)
        | s => (false, false, s)
      let (onlyDirs, line) := splitSlash line
      (Glob.parse? (.ofList (pattern anchored line))).map fun g => ⟨keeps, onlyDirs, g⟩

/-- The rules in a file, which may start with a byte order mark. -/
def ofBytes (bytes : List UInt8) : List IgnoreRule :=
  match (Text.lines bytes).map String.toList with
  | [] => []
  | first :: lines => (first.dropWhile (· = '\ufeff') :: lines).filterMap ofLine?

/-- Whether a path is to be kept or to be ignored, if a rule matches it. -/
def keeps? (rules : List IgnoreRule) (path : List UInt8) (isDir : Bool) : Option Bool :=
  (rules.reverse.find? fun r => (isDir || !r.onlyDirs) && r.glob.accepts path).map (·.keeps)

end IgnoreRule

/-- The rules of a directory: of its own file for this purpose, of its file for version control,
and of the file kept with the repository. -/
structure IgnoreLevel where
  dir : String
  own : List IgnoreRule
  tracked : List IgnoreRule
  excluded : List IgnoreRule

/-- The rules that bear on a directory, from the inside to the outside: those of the directories
from this one up to the one where the walk started, and those of the directories above, whose paths
are absolute. `place` is the absolute path of the start. -/
structure IgnoreLevels where
  start : String
  place : String
  inner : List IgnoreLevel
  outer : List IgnoreLevel

namespace IgnoreLevels

/-- The absolute form of a path below the start. -/
def absolute (levels : IgnoreLevels) (path : String) : String :=
  if Path.isHere levels.start then Path.join levels.place path
  else
    let start := Path.without "./" levels.start
    Path.join levels.place (Path.without "/" (Path.without start path))

/-- Whether the rules keep or ignore a path; the first level with a matching rule decides. All own
rules go before all tracked ones, and these before all excluded ones. -/
def keeps? (levels : IgnoreLevels) (path : String) (isDir : Bool) : Option Bool :=
  let path := Path.without "./" path
  let seen := levels.inner.map (fun l => (l, Path.below l.dir path)) ++
    levels.outer.map fun l => (l, Path.below l.dir (levels.absolute path))
  let ask (rules : IgnoreLevel → List IgnoreRule) :=
    seen.findSome? fun (l, p) => IgnoreRule.keeps? (rules l) p.toUTF8.toList isDir
  (ask (·.own)).or ((ask (·.tracked)).or (ask (·.excluded)))

end IgnoreLevels

end PhpOutline
