import PhpOutline.Error
import PhpOutline.Lexeme.Delimited
import PhpOutline.Lexeme.Heredoc
import PhpOutline.Lexeme.Markup
import PhpOutline.Lexeme.Number
import PhpOutline.Lexeme.Operator
import PhpOutline.Lexeme.Word
import PhpOutline.Text.Utf8
import PhpOutline.Token

/-!
# The tokens of a source

`tokenize` splits a source into tokens. It reads lexemes one after another, each a kind and a
length, in one of two modes: outside PHP, up to the next open tag, and inside, up to the next
close tag. Every character of the source belongs to one token.
-/

namespace PhpOutline

namespace Lexer

open Lexeme

inductive Mode
  | html | php
deriving DecidableEq

/-- What is read at once: kinds and lengths of lexemes, and the mode after them. -/
structure Chunk where
  lexemes : List (Kind × Nat)
  mode : Mode := .php
deriving DecidableEq

namespace Chunk

def one (kind : Kind) (length : Nat) : Chunk := ⟨[(kind, length)], .php⟩

/-- How many characters the chunk takes. -/
def size (k : Chunk) : Nat := (k.lexemes.map (·.2)).foldr (· + ·) 0

end Chunk

/-! ## Outside PHP -/

/-- The text before the next open tag, and that tag. -/
def htmlChunk (s : List Char) : Chunk :=
  match findOpenTag s with
  | (n, none) => ⟨[(.inlineHtml, n)], .html⟩
  | (0, some tag) => ⟨[tag], .php⟩
  | (n, some tag) => ⟨[(.inlineHtml, n), tag], .php⟩

/-! ## Inside PHP

Each reader takes the text from the lexeme's first character on, and the line on which it stands
if it can fail. -/

def isBlankChar (c : Char) : Bool := [' ', '\t', '\n', '\r'].contains c

def blockComment (line : Nat) (s : List Char) : Except LexError Chunk :=
  match blockCommentLength? s with
  | none => .error (.unterminatedComment line)
  | some n => .ok (.one (blockCommentKind s) n)

def quotation (line : Nat) (quote : Char) (s : List Char) : Except LexError Chunk :=
  match closingLength? quote (s.drop 1) with
  | none => .error (.unterminatedString line)
  | some n => .ok (.one .constantEncapsedString (1 + n))

def heredoc (line : Nat) (header : HeredocHeader) (s : List Char) : Except LexError Chunk :=
  match heredocBody? header.label (s.drop header.length) with
  | none => .error (.unterminatedHeredoc (.ofList header.label) line)
  | some (0, close) => .ok ⟨[(.startHeredoc, header.length), (.endHeredoc, close)], .php⟩
  | some (body, close) =>
    .ok ⟨[(.startHeredoc, header.length), (.encapsedAndWhitespace, body), (.endHeredoc, close)],
      .php⟩

/-- A variable, or the dollar sign alone. -/
def dollar (s : List Char) : Chunk :=
  match variableLength s with
  | 0 => .one .operator 1
  | n => .one .variableName n

def number (s : List Char) : Chunk :=
  .one (numberKind (s.take (numberLength s))) (numberLength s)

/-- A name, or a separator alone. -/
def name (ctx : Context) (s : List Char) : Chunk :=
  match nameLength s with
  | 0 => .one .nsSeparator 1
  | n => .one (nameKind ctx (s.take n) (s.drop n)) n

def punctuation (line : Nat) (c : Char) (s : List Char) : Except LexError Chunk :=
  match operator? s with
  | none => .error (.unexpectedCharacter c line)
  | some (kind, n) => .ok (.one kind n)

/-- Whether a number starts with `c`, where `s` is `c` and all that follows. -/
def startsNumber (c : Char) (s : List Char) : Bool :=
  c.isDigit || (c == '.' && (s.drop 1).head?.any Char.isDigit)

/-- The chunk that starts with `c`, where `s` is `c` and all that follows. -/
def phpChunk (ctx : Context) (line : Nat) (c : Char) (s : List Char) : Except LexError Chunk :=
  if isBlankChar c then .ok (.one .whitespace (s.takeWhile isBlankChar).length)
  else if ['?', '>'].isPrefixOf s then .ok ⟨[(.closeTag, closeTagLength s)], .html⟩
  else if ['#', '['].isPrefixOf s then .ok (.one .attributeOpen 2)
  else if c = '#' ∨ ['/', '/'].isPrefixOf s then .ok (.one .comment (lineCommentLength s))
  else if ['/', '*'].isPrefixOf s then blockComment line s
  else if isQuote c then quotation line c s
  else
    match heredocHeader? s with
    | some header => heredoc line header s
    | none =>
      if c = '$' then .ok (dollar s)
      else if startsNumber c s then .ok (number s)
      else if c = '\\' ∨ isIdentStart c then .ok (name ctx s)
      else punctuation line c s

/-! ## The whole source -/

/-- Where the reading stands. -/
structure State where
  mode : Mode := .html
  context : Context := {}
  offset : Nat := 0
  line : Nat := 1

namespace State

/-- The state after a token that starts here. -/
def push (st : State) (t : Token) : State where
  mode := st.mode
  context := st.context.push t.kind
  offset := t.endOffset
  line := st.line + t.text.toList.count '\n'

def chunk (st : State) (c : Char) (s : List Char) : Except LexError Chunk :=
  match st.mode with
  | .html => .ok (htmlChunk s)
  | .php => phpChunk st.context st.line c s

/-- The token of a kind and length at the start of a text. -/
def token (st : State) (kind : Kind) (length : Nat) (s : List Char) : Token where
  kind := kind
  text := .ofList (s.take length)
  offset := st.offset
  line := st.line

/-- Cuts lexemes off the start of a text: their tokens, and the state after them. -/
def cut (st : State) : List (Kind × Nat) → List Char → List Token × State
  | [], _ => ([], st)
  | (kind, n) :: ls, s =>
    let t := st.token kind n s
    let (ts, st') := (st.push t).cut ls (s.drop n)
    (t :: ts, st')

end State

/-- The tokens of the rest of a source. A chunk takes at least one character. -/
def tokensFrom (st : State) : List Char → Except LexError (List Token)
  | [] => .ok []
  | c :: s =>
    match st.chunk c (c :: s) with
    | .error e => .error e
    | .ok k =>
      let (ts, st') := st.cut k.lexemes (c :: s)
      match tokensFrom { st' with mode := k.mode } (s.drop (k.size - 1)) with
      | .error e => .error e
      | .ok us => .ok (ts ++ us)
termination_by s => s.length
decreasing_by simp only [List.length_drop, List.length_cons]; omega

end Lexer

/-- The tokens of a source text. -/
def tokenize (source : String) : Except LexError (List Token) :=
  Lexer.tokensFrom {} source.toList

/-- The tokens of a source given in bytes. -/
def tokenizeBytes (bytes : List UInt8) : Except LexError (List Token) :=
  match Text.decode bytes with
  | .error offset => .error (.invalidUtf8 offset)
  | .ok source => tokenize source

end PhpOutline
