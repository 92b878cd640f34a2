/-!
# Token kinds

The kinds of token that PHP source is made of. Every kind has a label for people and a tag for
JSON text; the two agree except for the two kinds of number.
-/

namespace PhpOutline

inductive Kind
  | inlineHtml | openTag | openTagWithEcho | closeTag
  | whitespace | comment | docComment
  | string | nameQualified | nameFullyQualified | nameRelative | nsSeparator
  | variableName | lnumber | dnumber
  | constantEncapsedString | startHeredoc | encapsedAndWhitespace | endHeredoc
  | namespaceKw | useKw | asKw | classKw | interfaceKw | traitKw | enumKw | functionKw | fnKw
  | constKw | extendsKw | implementsKw | newKw | abstractKw | finalKw | readonlyKw
  | publicKw | protectedKw | privateKw | staticKw | varKw
  | keyword
  | openBrace | closeBrace | openBracket | closeBracket | openParen | closeParen | attributeOpen
  | semicolon | comma | equals | ampersand | doubleColon | objectOperator | operator
deriving DecidableEq

namespace Kind

/-- Every kind once, in the order that listings use. -/
def all : List Kind :=
  [inlineHtml, openTag, openTagWithEcho, closeTag, whitespace, comment, docComment,
   string, nameQualified, nameFullyQualified, nameRelative, nsSeparator,
   variableName, lnumber, dnumber,
   constantEncapsedString, startHeredoc, encapsedAndWhitespace, endHeredoc,
   namespaceKw, useKw, asKw, classKw, interfaceKw, traitKw, enumKw, functionKw, fnKw,
   constKw, extendsKw, implementsKw, newKw, abstractKw, finalKw, readonlyKw,
   publicKw, protectedKw, privateKw, staticKw, varKw,
   keyword,
   openBrace, closeBrace, openBracket, closeBracket, openParen, closeParen, attributeOpen,
   semicolon, comma, equals, ampersand, doubleColon, objectOperator, operator]

/-- The place of a kind in `all`. -/
def index (k : Kind) : Nat := k.ctorIdx

def label : Kind → String
  | inlineHtml => "inline_html"
  | openTag => "open_tag"
  | openTagWithEcho => "open_tag_with_echo"
  | closeTag => "close_tag"
  | whitespace => "whitespace"
  | comment => "comment"
  | docComment => "doc_comment"
  | string => "string"
  | nameQualified => "name_qualified"
  | nameFullyQualified => "name_fully_qualified"
  | nameRelative => "name_relative"
  | nsSeparator => "ns_separator"
  | variableName => "variable"
  | lnumber => "lnumber"
  | dnumber => "dnumber"
  | constantEncapsedString => "constant_encapsed_string"
  | startHeredoc => "start_heredoc"
  | encapsedAndWhitespace => "encapsed_and_whitespace"
  | endHeredoc => "end_heredoc"
  | namespaceKw => "namespace"
  | useKw => "use"
  | asKw => "as"
  | classKw => "class"
  | interfaceKw => "interface"
  | traitKw => "trait"
  | enumKw => "enum"
  | functionKw => "function"
  | fnKw => "fn"
  | constKw => "const"
  | extendsKw => "extends"
  | implementsKw => "implements"
  | newKw => "new"
  | abstractKw => "abstract"
  | finalKw => "final"
  | readonlyKw => "readonly"
  | publicKw => "public"
  | protectedKw => "protected"
  | privateKw => "private"
  | staticKw => "static"
  | varKw => "var"
  | keyword => "keyword"
  | openBrace => "open_brace"
  | closeBrace => "close_brace"
  | openBracket => "open_bracket"
  | closeBracket => "close_bracket"
  | openParen => "open_paren"
  | closeParen => "close_paren"
  | attributeOpen => "attribute"
  | semicolon => "semicolon"
  | comma => "comma"
  | equals => "equals"
  | ampersand => "ampersand"
  | doubleColon => "double_colon"
  | objectOperator => "object_operator"
  | operator => "operator"

/-- The name of a kind in JSON text. -/
def tag : Kind → String
  | lnumber => "l_number"
  | dnumber => "d_number"
  | k => k.label

/-- The kind with a given tag. -/
def ofTag? (s : String) : Option Kind := all.find? (·.tag == s)

theorem all_get?_index (k : Kind) : all[k.index]? = some k := by
  cases k <;> rfl

theorem index_lt (k : Kind) : k.index < 55 := by
  cases k <;> decide

theorem index_inj {k l : Kind} : k.index = l.index ↔ k = l := by
  constructor
  · intro h
    have hk := all_get?_index k
    rw [h, all_get?_index l] at hk
    exact (Option.some.inj hk).symm
  · rintro rfl; rfl

theorem mem_all (k : Kind) : k ∈ all :=
  List.mem_of_getElem? (all_get?_index k)

end Kind

end PhpOutline
