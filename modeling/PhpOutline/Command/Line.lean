/-!
# The command line

`Command.parse` reads the words after the program's name. Flags and the argument of a command
come in any order; after `--` no word is a flag.
-/

namespace PhpOutline

/-- What the user wants to be done. -/
inductive Command
  | tokens (file : String) (code json : Bool)
  | outline (path : Option String) (noValues json : Bool)
deriving DecidableEq

/-- Why there is no command to run: help or the version is asked for, or the line is wrong. -/
inductive Stop
  | help
  | version (command : Option String)
  | noCommand
  | unknownCommand
  | unknownArgument
  | tooManyValues
  | repeatedFlag
  | emptyValue
  | missingFile
deriving DecidableEq

namespace Command

/-- The commands, and one that shows help for the others. -/
inductive Verb
  | tokens | outline | help
deriving DecidableEq

def Verb.ofWord? : String → Option Verb
  | "tokens" => some tokens
  | "t" => some tokens
  | "outline" => some outline
  | "o" => some outline
  | "help" => some help
  | _ => none

def Verb.name : Verb → String
  | tokens => "tokens"
  | outline => "outline"
  | help => "help"

/-- The flags of a command, besides those for help and version. -/
def Verb.flags : Verb → List String
  | tokens => ["code", "json"]
  | outline => ["no-values", "json"]
  | help => []

/-- What a word of the line is by its form. -/
inductive Word
  | dashes
  | long (name : String) (hasValue : Bool)
  | short (first : Char)
  | plain (text : String)

def Word.ofString (s : String) : Word :=
  match s.toList with
  | ['-', '-'] => dashes
  | '-' :: '-' :: l =>
    let name := l.takeWhile (· ≠ '=')
    long (.ofList name) (name.length < l.length)
  | '-' :: c :: _ => short c
  | _ => plain s

/-- What has been read of the words after a command. -/
structure Draft where
  argument : Option String := none
  flags : List String := []

/-- Refuses an empty argument. -/
def Draft.settle (d : Draft) : Except Stop Unit :=
  if d.argument = some "" then .error .emptyValue else .ok ()

def Draft.put (d : Draft) (text : String) : Except Stop Draft :=
  if d.argument.isSome then .error .unknownArgument else .ok { d with argument := some text }

/-- Reads a flag by its name. -/
def Draft.flag (d : Draft) (verb : Verb) (name : String) (hasValue : Bool) :
    Except Stop Draft := do
  if !("help" :: "version" :: verb.flags).contains name then throw .unknownArgument
  if hasValue then throw .tooManyValues
  d.settle
  if name = "help" then throw .help
  if name = "version" then throw (.version verb.name)
  if d.flags.contains name then throw .repeatedFlag
  return { d with flags := name :: d.flags }

/-- Reads the words after a command. -/
def arguments (verb : Verb) (d : Draft) : List String → Except Stop Draft
  | [] => do
    d.settle
    return d
  | w :: ws =>
    match Word.ofString w with
    | .dashes => do
      let d ← ws.foldlM Draft.put d
      d.settle
      return d
    | .long name hasValue => do arguments verb (← d.flag verb name hasValue) ws
    | .short 'h' => do arguments verb (← d.flag verb "help" false) ws
    | .short 'V' => do arguments verb (← d.flag verb "version" false) ws
    | .short _ => .error .unknownArgument
    | .plain text => do arguments verb (← d.put text) ws

/-- Reads the words after the word for a command. -/
def ofVerb (verb : Verb) (ws : List String) : Except Stop Command :=
  match verb with
  | .tokens => do
    let d ← arguments verb {} ws
    match d.argument with
    | none => throw .missingFile
    | some file => return tokens file (d.flags.contains "code") (d.flags.contains "json")
  | .outline => do
    let d ← arguments verb {} ws
    return outline d.argument (d.flags.contains "no-values") (d.flags.contains "json")
  | .help =>
    match ws with
    | [] => .error .help
    | [w] => .error (if (Verb.ofWord? w).isSome then .help else .unknownCommand)
    | _ => .error .unknownCommand

/-- The command that a line asks for. -/
def parse : List String → Except Stop Command
  | [] => .error .noCommand
  | w :: ws =>
    match Word.ofString w with
    | .dashes =>
      match ws with
      | [] => .error .noCommand
      | w :: _ => .error (if (Verb.ofWord? w).isSome then .unknownArgument else .unknownCommand)
    | .long "help" hasValue => .error (if hasValue then .tooManyValues else .help)
    | .long "version" hasValue => .error (if hasValue then .tooManyValues else .version none)
    | .long _ _ => .error .unknownArgument
    | .short 'h' => .error .help
    | .short 'V' => .error (.version none)
    | .short _ => .error .unknownArgument
    | .plain text =>
      match Verb.ofWord? text with
      | none => .error .unknownCommand
      | some verb => ofVerb verb ws

end Command

end PhpOutline
