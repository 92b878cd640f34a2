import PhpOutline.Lexeme.Context
import PhpOutline.Lexeme.Markup
import PhpOutline.Lexeme.Name

/-!
# Words

The kind of a name. A qualified name is told by its separators. A plain word is a keyword unless
it stands where only a name can: after a member access, or as the name of a function or constant.
The word `enum` is a keyword only if another word follows it.
-/

namespace PhpOutline.Lexeme

/-! ## The word that follows -/

/-- Every suffix of a text with the word found from there on. -/
abbrev Lookahead := List (List Char × Option (List Char))

namespace Lookahead

/-- The word found from the first suffix on. -/
def first? (t : Lookahead) : Option (List Char) :=
  match t with
  | [] => none
  | e :: _ => e.2

/-- The word found from the last suffix that has one. -/
def last? (t : Lookahead) : Option (List Char) := t.reverse.findSome? (·.2)

/-- The word found after the first closing mark of a block comment that has one after it. -/
def afterClosing? : Lookahead → Option (List Char)
  | [] => none
  | e :: t =>
    if ['*', '/'].isPrefixOf e.1 then (first? (t.drop 1)).or (afterClosing? t)
    else afterClosing? t

end Lookahead

/-- How many characters are left on the line. -/
def lineLength (s : List Char) : Nat := (s.takeWhile fun c => c ≠ '\r' ∧ c ≠ '\n').length

/-- The characters between words that are not part of a comment. -/
def isGap (c : Char) : Bool := [' ', '\t', '\r', '\n'].contains c

/-- The word found from `c :: s` on, given what is found from the suffixes of `s` on. Blanks are
skipped. A block comment may end at any closing mark, the earliest that leads to a word; a line
comment may end at any character of its line, the latest that leads to a word. -/
def wordFrom? (c : Char) (s : List Char) (t : Lookahead) : Option (List Char) :=
  if isGap c then t.first?
  else if isIdentStart c then some (c :: s.takeWhile isIdentRest)
  else
    match c, s with
    | '#', '[' :: _ => none
    | '#', _ => Lookahead.last? (t.take (lineLength s + 1))
    | '/', '*' :: _ => Lookahead.afterClosing? (t.drop 1)
    | '/', '/' :: r => Lookahead.last? ((t.drop 1).take (lineLength r + 1))
    | _, _ => none

def lookahead : List Char → Lookahead
  | [] => [([], none)]
  | c :: s => let t := lookahead s; (c :: s, wordFrom? c s t) :: t

/-- The word that follows, with blanks and comments skipped. Only a comment needs to know what is
found further on. -/
def wordAhead? (s : List Char) : Option (List Char) :=
  match s.dropWhile isGap with
  | [] => none
  | c :: s =>
    if c = '#' ∨ c = '/' then (lookahead (c :: s)).first?
    else wordFrom? c s []

/-- Whether `enum` before the given text declares an enumeration. -/
def declaresEnum (after : List Char) : Bool :=
  match wordAhead? after with
  | none => false
  | some w => !(["extends".toList, "implements".toList].contains (w.map Char.toLower))

/-! ## Keywords -/

/-- The keywords with a kind of their own, in lower case. -/
def keywords : List (String × Kind) :=
  [("abstract", .abstractKw), ("as", .asKw), ("class", .classKw), ("const", .constKw),
   ("extends", .extendsKw), ("final", .finalKw), ("fn", .fnKw), ("function", .functionKw),
   ("implements", .implementsKw), ("interface", .interfaceKw), ("namespace", .namespaceKw),
   ("new", .newKw), ("private", .privateKw), ("protected", .protectedKw), ("public", .publicKw),
   ("readonly", .readonlyKw), ("static", .staticKw), ("trait", .traitKw), ("use", .useKw),
   ("var", .varKw)]

/-- The other reserved words, in lower case. -/
def reserved : List String :=
  ["__halt_compiler", "and", "array", "break", "callable", "case", "catch", "clone", "continue",
   "declare", "default", "die", "do", "echo", "else", "elseif", "empty", "enddeclare", "endfor",
   "endforeach", "endif", "endswitch", "endwhile", "eval", "exit", "finally", "for", "foreach",
   "global", "goto", "if", "include", "include_once", "instanceof", "insteadof", "isset", "list",
   "match", "or", "print", "require", "require_once", "return", "switch", "throw", "try",
   "unset", "while", "xor", "yield"]

/-- The kind of a word in lower case, wherever keywords may stand. -/
def keywordKind (word : String) (after : List Char) : Kind :=
  if word = "enum" then if declaresEnum after then .enumKw else .string
  else
    match keywords.lookup word with
    | some k => k
    | none => if reserved.contains word then .keyword else .string

/-- The kind of a word in its place. -/
def wordKind (ctx : Context) (text after : List Char) : Kind :=
  let word := String.ofList (text.map Char.toLower)
  if ctx.forcesName word then .string else keywordKind word after

/-! ## Names of all kinds -/

/-- Whether a name is relative to the current namespace. -/
def isRelativeName (text : List Char) : Bool := Text.startsWithWord "namespace\\".toList text

def nameKind (ctx : Context) (text after : List Char) : Kind :=
  if ['\\'].isPrefixOf text then .nameFullyQualified
  else if text.contains '\\' then
    if isRelativeName text then .nameRelative else .nameQualified
  else wordKind ctx text after

end PhpOutline.Lexeme
