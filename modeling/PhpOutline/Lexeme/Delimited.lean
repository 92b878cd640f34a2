import PhpOutline.Kind

/-!
# Strings and comments

Text that is being read is a list of characters. A reader answers with a length: how many
characters, from the first one on, belong to what it looks for.

A string ends at the first occurrence of its quote that is not escaped by a backslash. A line
comment ends before a line break or a close tag, a block comment after the first closing mark. A
block comment that opens with two stars and a blank is a documentation comment.
-/

namespace PhpOutline

/-- How many characters stand before the first occurrence of `pat`. -/
def Text.find? (pat : List Char) : List Char → Option Nat
  | [] => if pat.isEmpty then some 0 else none
  | c :: s => if pat.isPrefixOf (c :: s) then some 0 else (find? pat s).map (· + 1)

namespace Lexeme

/-- Length of the rest of a string with its closing quote, if it is closed. -/
def closingLength? (quote : Char) : List Char → Option Nat
  | [] => none
  | '\\' :: [] => none
  | '\\' :: _ :: s => (closingLength? quote s).map (· + 2)
  | c :: s => if c = quote then some 1 else (closingLength? quote s).map (· + 1)

/-- The three quotes that open a string. -/
def isQuote (c : Char) : Bool := ['\'', '"', '\x60'].contains c

/-- Length of a line comment, counted from its opening mark. -/
def lineCommentLength : List Char → Nat
  | [] => 0
  | c :: s =>
    if c = '\n' ∨ c = '\r' ∨ ['?', '>'].isPrefixOf (c :: s) then 0
    else 1 + lineCommentLength s

/-- Length of a block comment with both its marks, if it is closed. -/
def blockCommentLength? (s : List Char) : Option Nat :=
  (Text.find? ['*', '/'] (s.drop 2)).map (· + 4)

/-- The blanks that may follow the opening mark of a documentation comment. -/
def isDocBlank (c : Char) : Bool := [' ', '\t', '\n', '\x0c', '\r'].contains c

def blockCommentKind : List Char → Kind
  | '/' :: '*' :: '*' :: c :: _ => if isDocBlank c then .docComment else .comment
  | _ => .comment

end Lexeme

end PhpOutline
