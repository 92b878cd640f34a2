import PhpOutline.Command.Line
import PhpOutline.Files.Walk
import PhpOutline.Outline.Build
import PhpOutline.Report.Json
import PhpOutline.Report.Tokens
import PhpOutline.Settings.Load

/-!
# Running a command

`run` does what a command line asks for on a given machine. The outcome is an exit code with the
two texts to print: 0 for success, 1 for a failure with its causes, 2 for a wrong line.
-/

namespace PhpOutline

/-! ## Failures -/

/-- What could not be done, and why, each cause being due to the next one. -/
structure Failure where
  task : String
  causes : List String
deriving DecidableEq

namespace Failure

/-- A cause after the text that leads to it; its further lines stand below its first one. -/
def causeText (lead cause : String) : String :=
  let indent := .ofList (List.replicate lead.length ' ')
  lead ++ ("\n" ++ indent).intercalate ((cause.toList.splitOn '\n').map .ofList)

/-- A report with one line for each cause; they are numbered if there are several. -/
def report (f : Failure) : String :=
  let lead (i : Nat) :=
    if f.causes.length ≤ 1 then "    " else Report.padLeft 5 (toString i) ++ ": "
  let causes := f.causes.mapIdx fun i c => "\n" ++ causeText (lead i) c
  let heading := if f.causes.isEmpty then "" else "\n\nCaused by:"
  s!"Error: {f.task}" ++ heading ++ String.join causes ++ "\n"

end Failure

def Error.causes : Error → List String
  | lex cause => [(lex cause).message, cause.message]
  | e => [e.message]

/-! ## Commands -/

section
variable {m : Type → Type} [Monad m] (h : Host m)

/-- The listing of a file's tokens. -/
def runTokens (s : Settings) (file : String) (code json : Bool) : m (Except Failure String) := do
  match ← h.read file with
  | .error e => return .error ⟨s!"Failed to read {file}", [e.message]⟩
  | .ok bytes =>
    let flags : Flags :=
      { s.lexer.flags with discardTrivia := s.lexer.flags.discardTrivia || code }
    match tokenizeBytes bytes >>= Graph.link .php flags with
    | .error e => return .error ⟨s!"Failed to tokenize {file}", [e.message]⟩
    | .ok g => return .ok (if json then Report.tokensJson g else Report.tokens g)

/-- The outline of a file, or the causes of its failure. -/
def outlineAt (s : Settings) (path : String) : m (Except (List String) FileOutline) := do
  match ← h.read path with
  | .error e => return .error [s!"IO error: {e.message}", e.message]
  | .ok bytes =>
    match outlineBytes s bytes with
    | .error e => return .error e.causes
    | .ok o => return .ok { o with path := some path }

/-- The outlines of the files at a path. In a directory, files without an outline are left out. -/
def outlinesAt (s : Settings) (path : String) : m (Except Failure (List FileOutline)) := do
  match ← h.look path with
  | some .directory =>
    let found ← (← walk h s.outline path).mapM (outlineAt h s)
    return .ok (found.filterMap Except.toOption)
  | _ =>
    match ← outlineAt h s path with
    | .error causes => return .error ⟨s!"Failed to outline {path}", causes⟩
    | .ok o => return .ok [o]

def runOutline (s : Settings) (path? : Option String) (noValues json : Bool) :
    m (Except Failure String) := do
  let values := s.outline.includeValues && !noValues
  let s := { s with outline := { s.outline with includeValues := values } }
  let path ← match path? with
    | some path => pure path
    | none => h.workingDirectory
  match ← outlinesAt h s path with
  | .error f => return .error f
  | .ok files => return .ok (if json then Report.outlinesJson files else Report.outlines files)

/-- What a command prints. -/
def Command.run (c : Command) : m (Except Failure String) := do
  match ← Settings.load h with
  | .error e => return .error ⟨"Failed to load configuration", e.causes⟩
  | .ok s =>
    match c with
    | tokens file code json => runTokens h s file code json
    | outline path? noValues json => runOutline h s path? noValues json

/-! ## The program -/

structure Outcome where
  exit : UInt32
  stdout : String := ""
  stderr : String := ""

def programName : String := "phpnav"

def usage : String :=
  s!"Usage: {programName} tokens FILE [--code] [--json]\n" ++
  s!"       {programName} outline [PATH] [--no-values] [--json]\n"

/-- The outcome without a command. -/
def Stop.outcome : Stop → Outcome
  | help => { exit := 0, stdout := usage }
  | version none => { exit := 0, stdout := s!"{programName} 0.1.0\n" }
  | version (some command) => { exit := 0, stdout := s!"{programName}-{command} 0.1.0\n" }
  | _ => { exit := 2, stderr := usage }

def run (args : List String) : m Outcome := do
  match Command.parse args with
  | .error stop => return stop.outcome
  | .ok c =>
    match ← c.run h with
    | .ok text => return { exit := 0, stdout := text }
    | .error f => return { exit := 1, stderr := f.report }

end

end PhpOutline
