import PhpOutline.Files.Host
import PhpOutline.Graph

/-!
# Settings

What the user can choose: how tokens are linked, which files are taken for PHP and how large they
may be, and whether an outline shows values.
-/

namespace PhpOutline

structure LexerSettings where
  matchBrackets : Bool := true
  retainTrivia : Bool := true
deriving DecidableEq

structure OutlineSettings where
  extensions : List String := ["php"]
  maxFileSize : Nat := 1048576
  includeValues : Bool := true
deriving DecidableEq

structure Settings where
  lexer : LexerSettings := {}
  outline : OutlineSettings := {}
deriving DecidableEq

inductive SettingsError
  | noExtensions
  | noFileSize
  | noPlace
  | notFound (path : String)
  | unreadable (cause : FileError)
  | malformed
deriving DecidableEq

def SettingsError.message : SettingsError → String
  | noExtensions => "Configuration error: outline.extensions must not be empty"
  | noFileSize => "Configuration error: outline.max_file_size must be positive"
  | noPlace => "Configuration error: Could not determine the configuration directory"
  | notFound path => s!"Config file not found: {path}"
  | unreadable cause => s!"IO error: {cause.message}"
  | malformed => "TOML parse error: malformed document"

/-- The message, and what it is due to. -/
def SettingsError.causes : SettingsError → List String
  | unreadable cause => [(unreadable cause).message, cause.message]
  | malformed => [malformed.message, "malformed document"]
  | e => [e.message]

def LexerSettings.flags (s : LexerSettings) : Flags := ⟨s.matchBrackets, !s.retainTrivia⟩

/-- Refuses settings under which no file could be found. -/
def Settings.validate (s : Settings) : Except SettingsError Settings :=
  if s.outline.extensions.isEmpty then .error .noExtensions
  else if s.outline.maxFileSize = 0 then .error .noFileSize
  else .ok s

end PhpOutline
