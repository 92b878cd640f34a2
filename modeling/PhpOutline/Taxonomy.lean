import PhpOutline.KindSet

/-!
# Taxonomies

A taxonomy says which kinds open and close brackets, which are trivia, which may stand in a
declaration header, which are parts of a name and which end a statement. A kind that is not
trivia is code. `Taxonomy.php` is the taxonomy of PHP.
-/

namespace PhpOutline

structure Taxonomy where
  openers : KindSet
  closers : KindSet
  trivia : KindSet
  declarationParts : KindSet
  nameSegments : KindSet
  terminators : KindSet
deriving DecidableEq

namespace Taxonomy

def isOpener (x : Taxonomy) (k : Kind) : Bool := x.openers.contains k

def isCloser (x : Taxonomy) (k : Kind) : Bool := x.closers.contains k

def isTrivia (x : Taxonomy) (k : Kind) : Bool := x.trivia.contains k

def isCode (x : Taxonomy) (k : Kind) : Bool := !x.isTrivia k

def php : Taxonomy where
  openers := .ofList [.openBrace, .openBracket, .openParen, .attributeOpen]
  closers := .ofList [.closeBrace, .closeBracket, .closeParen]
  trivia := .ofList
    [.inlineHtml, .openTag, .openTagWithEcho, .closeTag, .whitespace, .comment, .docComment]
  declarationParts := .ofList
    [.abstractKw, .finalKw, .readonlyKw, .publicKw, .protectedKw, .privateKw, .staticKw, .varKw,
     .string, .nameQualified, .nameFullyQualified, .nameRelative, .nsSeparator, .comma,
     .namespaceKw, .classKw, .interfaceKw, .traitKw, .enumKw, .functionKw, .constKw,
     .extendsKw, .implementsKw]
  nameSegments := .ofList
    [.string, .nameQualified, .nameFullyQualified, .nameRelative, .nsSeparator]
  terminators := .ofList [.semicolon, .closeTag]

end Taxonomy

end PhpOutline
