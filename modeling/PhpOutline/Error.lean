import PhpOutline.Text.Quoted

/-!
# Errors

What can go wrong between source text and an outline. A `LexError` stops the tokens of a source
or their links. A `StructuralError` is a declaration that does not have the expected form, and a
`UsageError` is a request that makes no sense for the view that it is put to.
-/

namespace PhpOutline

inductive LexError
  | unterminatedString (line : Nat)
  | unterminatedComment (line : Nat)
  | unterminatedHeredoc (label : String) (line : Nat)
  | unexpectedCharacter (c : Char) (line : Nat)
  | invalidUtf8 (offset : Nat)
  | unmatchedCloser (text : String) (line : Nat)
  | unclosedBracket (text : String) (line : Nat)
deriving DecidableEq

def LexError.message : LexError → String
  | unterminatedString line => s!"Unterminated string literal starting on line {line}"
  | unterminatedComment line => s!"Unterminated comment starting on line {line}"
  | unterminatedHeredoc label line => s!"Unterminated heredoc '{label}' starting on line {line}"
  | unexpectedCharacter c line => s!"Unexpected character {Text.quotedChar c} on line {line}"
  | invalidUtf8 offset => s!"Invalid UTF-8 sequence at byte {offset}"
  | unmatchedCloser text line => s!"Unmatched '{text}' on line {line}"
  | unclosedBracket text line => s!"Unclosed '{text}' on line {line}"

inductive StructuralError
  | neverClosed (text : String)
  | namespaceWithoutName
  | namespaceWithoutBody (name : String)
  | namespaceFollowedBy (name found : String)
  | typeWithoutName (keyword : String)
  | typeWithoutBody (keyword name : String)
  | typeWithoutKeyword (name : String)
  | functionWithoutBody (name : String)
  | constantWithoutValue
  | constantWithoutName
  | useWithoutEnd
  | useWithoutName
  | useWithoutItem (found : String)
  | useFollowedBy (found : String)
  | groupWithoutEnd
  | groupWithoutItem
  | groupFollowedBy (found : String)
  | aliasMissing
  | importWithoutFinal (name : String)
deriving DecidableEq

def StructuralError.message : StructuralError → String
  | neverClosed text => s!"'{text}' is never closed"
  | namespaceWithoutName => "expected a name after 'namespace'"
  | namespaceWithoutBody name => s!"namespace {name} is not followed by a body"
  | namespaceFollowedBy name found =>
    s!"expected '\x7b', ';' or '?>' after namespace {name}, found '{found}'"
  | typeWithoutName keyword => s!"expected a name after '{keyword}'"
  | typeWithoutBody keyword name => s!"{keyword} {name} has no body"
  | typeWithoutKeyword name => s!"no declaration keyword for {name}"
  | functionWithoutBody name => s!"function {name} has no body"
  | constantWithoutValue => "constant declared without '='"
  | constantWithoutName => "expected a constant name before '='"
  | useWithoutEnd => "use statement is never terminated"
  | useWithoutName => "expected a name in use statement"
  | useWithoutItem found => s!"expected a name in use statement, found '{found}'"
  | useFollowedBy found => s!"unexpected '{found}' in use statement"
  | groupWithoutEnd => "unclosed group in use statement"
  | groupWithoutItem => "empty group in use statement"
  | groupFollowedBy found => s!"unexpected '{found}' after import group"
  | aliasMissing => "expected an alias after 'as'"
  | importWithoutFinal name => s!"import '{name}' has no final segment"

/-- What a member is. -/
inductive MemberKind
  | function | property | constant
deriving DecidableEq

def MemberKind.label : MemberKind → String
  | function => "function"
  | property => "property"
  | constant => "constant"

inductive UsageError
  | bracketsNotMatched
  | tokenOutOfRange (index : Nat)
  | notAnOpener (text : String) (line : Nat)
  | namespaceSet (current entered : String)
  | typeSet (current entered : String)
  | memberSet (kind : MemberKind) (current : String) (enteredKind : MemberKind) (entered : String)
  | notATypeBody
  | typeWithoutAnchor (name : String)
  | noNamespace
  | foreignToken (text : String) (line : Nat)
  | notAName (text : String) (line : Nat)
deriving DecidableEq

def UsageError.message : UsageError → String
  | bracketsNotMatched => "extraction needs a token list built with MATCH_BRACKETS"
  | tokenOutOfRange index => s!"token {index} is out of range"
  | notAnOpener text line => s!"'{text}' on line {line} is not an opening bracket"
  | namespaceSet current entered =>
    s!"namespace '{current}' is already set, cannot enter '{entered}'"
  | typeSet current entered => s!"type '{current}' is already set, cannot enter '{entered}'"
  | memberSet kind current enteredKind entered =>
    s!"{kind.label} '{current}' is already set, cannot enter {enteredKind.label} '{entered}'"
  | notATypeBody => "properties can only be listed on a type body"
  | typeWithoutAnchor name => s!"type {name} has no body anchor"
  | noNamespace => "resolving a name needs a namespace scope"
  | foreignToken text line => s!"'{text}' on line {line} does not belong to this extractor"
  | notAName text line => s!"'{text}' on line {line} is not a name"

inductive Error
  | lex (cause : LexError)
  | structural (line : Nat) (cause : StructuralError)
  | usage (cause : UsageError)
deriving DecidableEq

def Error.message : Error → String
  | lex cause => s!"Lex error: {cause.message}"
  | structural line cause => s!"Structural error on line {line}: {cause.message}"
  | usage cause => s!"Usage error: {cause.message}"

/-! ## Results -/

section

variable {ε α β : Type} {x : Except ε α} {f : α → Except ε β}

theorem of_bind_ok {b : β} (h : x >>= f = .ok b) : ∃ a, x = .ok a ∧ f a = .ok b := by
  cases x with
  | error e => cases h
  | ok a => exact ⟨a, rfl, h⟩

theorem of_bind_error {e : ε} (h : x >>= f = .error e) :
    x = .error e ∨ ∃ a, x = .ok a ∧ f a = .error e := by
  cases x with
  | error e' => cases h; exact .inl rfl
  | ok a => exact .inr ⟨a, rfl, h⟩

end

end PhpOutline
