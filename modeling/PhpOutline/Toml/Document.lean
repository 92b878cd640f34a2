import PhpOutline.Toml.Scalar
import PhpOutline.Toml.Text

/-!
# TOML documents

`Toml.parse?` reads a whole document, a line at a time: a header, a key with its value, or nothing
but a comment. Arrays and inline tables are read with a bound on their nesting.
-/

namespace PhpOutline.Toml

def skipBlanks (s : List Char) : List Char := s.dropWhile fun c => c = ' ' ∨ c = '\t'

/-- The text after a comment, up to and without the line break. -/
def skipComment? : List Char → Option (List Char)
  | '#' :: s =>
    let rest := s.dropWhile isPlain
    match rest with
    | [] => some []
    | '\n' :: _ => some rest
    | '\r' :: '\n' :: _ => some rest
    | _ => none
  | s => some s

/-! ## Keys -/

def isBareChar (c : Char) : Bool := c.isAlphanum || c == '_' || c == '-'

/-- A part of a key. -/
def keyPart? (s : List Char) : Option (String × List Char) :=
  match s with
  | '"' :: s => (basicString? s).map fun (k, rest) => (.ofList k, rest)
  | '\'' :: s => (literalString? s).map fun (k, rest) => (.ofList k, rest)
  | _ =>
    let key := s.takeWhile isBareChar
    if key.isEmpty then none else some (.ofList key, s.drop key.length)

/-- How deep arrays and inline tables may be nested, and how many parts a key may have. -/
def maxDepth : Nat := 80

/-- A key with its dots; `fuel` bounds the number of its parts. -/
def dottedKey? : (fuel : Nat) → List Char → Option (List String × List Char)
  | 0, _ => none
  | fuel + 1, s => do
    let (part, rest) ← keyPart? (skipBlanks s)
    match skipBlanks rest with
    | '.' :: more =>
      let (parts, rest) ← dottedKey? fuel more
      return (part :: parts, rest)
    | rest => return ([part], rest)

def key? (s : List Char) : Option (List String × List Char) := dottedKey? (maxDepth - 1) s

/-- The key before the last part, and the last part. -/
def splitKey? (key : List String) : Option (List String × String) :=
  key.getLast?.map (key.dropLast, ·)

/-! ## Values -/

/-- Blanks, line breaks and comments, as they may stand between the elements of an array. -/
def skipLines? : (fuel : Nat) → List Char → Option (List Char)
  | 0, _ => none
  | fuel + 1, s =>
    match skipComment? (skipBlanks s) with
    | none => none
    | some rest =>
      match afterBreak? rest with
      | some rest => skipLines? fuel rest
      | none => some rest

mutual

/-- A value. Every step takes one unit of fuel. -/
def value? (fuel depth : Nat) (s : List Char) : Option (Toml × List Char) :=
  match fuel with
  | 0 => none
  | fuel + 1 =>
    match s with
    | '[' :: s => if depth + 1 < maxDepth then items? fuel (depth + 1) s else none
    | '\x7b' :: s =>
      if depth + 1 < maxDepth then
        match skipBlanks s with
        | '\x7d' :: rest => some (table .inline [], rest)
        | s => pairs? fuel (depth + 1) [] s
      else none
    | '"' :: _ => (string? s).map fun (t, rest) => (str t, rest)
    | '\'' :: _ => (string? s).map fun (t, rest) => (str t, rest)
    | _ => scalar? s

/-- The elements of an array and its closing bracket. -/
def items? (fuel depth : Nat) (s : List Char) : Option (Toml × List Char) :=
  match fuel with
  | 0 => none
  | fuel + 1 => do
    match ← skipLines? (s.length + 1) s with
    | ']' :: rest => return (arr [], rest)
    | s =>
      let (v, rest) ← value? fuel depth s
      match ← skipLines? (rest.length + 1) rest with
      | ']' :: rest => return (arr [v], rest)
      | ',' :: rest =>
        match ← items? fuel depth rest with
        | (arr vs, rest) => return (arr (v :: vs), rest)
        | _ => none
      | _ => none

/-- The pairs of an inline table and its closing brace. -/
def pairs? (fuel depth : Nat) (fs : Fields) (s : List Char) : Option (Toml × List Char) :=
  match fuel with
  | 0 => none
  | fuel + 1 => do
    let (key, rest) ← key? s
    let (path, last) ← splitKey? key
    match rest with
    | '=' :: rest =>
      let (v, rest) ← value? fuel depth (skipBlanks rest)
      let fs ← assign? fs path last v
      match skipBlanks rest with
      | '\x7d' :: rest => return (table .inline fs, rest)
      | ',' :: rest => pairs? fuel depth fs rest
      | _ => none
    | _ => none

end

/-! ## Lines -/

/-- The text after the end of a line. -/
def endLine? (s : List Char) : Option (List Char) := do
  let rest ← skipComment? (skipBlanks s)
  if rest.isEmpty then return [] else afterBreak? rest

/-- A document under construction: its tables, and the header that was read last. -/
structure Draft where
  fields : Fields := []
  header : List String := []

/-- Reads one line and the text after it. -/
def line? (d : Draft) (s : List Char) : Option (Draft × List Char) := do
  match skipBlanks s with
  | '[' :: '[' :: s =>
    let (key, rest) ← key? s
    match rest with
    | ']' :: ']' :: rest => return (⟨← openElement? d.fields key, key⟩, ← endLine? rest)
    | _ => none
  | '[' :: s =>
    let (key, rest) ← key? s
    match rest with
    | ']' :: rest => return (⟨← openTable? d.fields key, key⟩, ← endLine? rest)
    | _ => none
  | s =>
    match endLine? s with
    | some rest => return (d, rest)
    | none =>
      let (key, rest) ← key? s
      let (path, last) ← splitKey? key
      match rest with
      | '=' :: rest =>
        let (v, rest) ← value? (rest.length + 1) 0 (skipBlanks rest)
        let fields ← within? (assign? · path last v) d.fields d.header
        return (⟨fields, d.header⟩, ← endLine? rest)
      | _ => none

/-- Reads all lines; every line has at least one character. -/
def lines? : (fuel : Nat) → Draft → List Char → Option Draft
  | 0, d, s => if s.isEmpty then some d else none
  | fuel + 1, d, s =>
    if s.isEmpty then some d
    else
      match line? d s with
      | none => none
      | some (d, rest) => lines? fuel d rest

/-- The top table of a document. A byte order mark may stand before it. -/
def parse? (source : String) : Option Fields :=
  let s := match source.toList with
    | '\ufeff' :: s => s
    | s => s
  (lines? s.length {} s).map (·.fields)

end PhpOutline.Toml
