import PhpOutline.Kind

/-!
# Text outside PHP

A source starts outside PHP. An open tag is `<?=`, or `<?php` in any case before a blank, which
belongs to the tag, or at the end of the source. All text before it is one lexeme.
-/

namespace PhpOutline

/-- Whether a text starts with a word, letters compared without regard to ASCII case. The word is
given in lower case. -/
def Text.startsWithWord (word s : List Char) : Bool :=
  word.isPrefixOf ((s.take word.length).map Char.toLower)

namespace Lexeme

/-- Length of the blank that an open tag takes along, if one may stand there. -/
def tagBlankLength? : List Char → Option Nat
  | [] => some 0
  | '\r' :: '\n' :: _ => some 2
  | c :: _ => if [' ', '\t', '\n', '\r'].contains c then some 1 else none

/-- The open tag that a text starts with. -/
def openTag? (s : List Char) : Option (Kind × Nat) :=
  if ['<', '?', '='].isPrefixOf s then some (.openTagWithEcho, 3)
  else if Text.startsWithWord ['<', '?', 'p', 'h', 'p'] s then
    (tagBlankLength? (s.drop 5)).map fun n => (.openTag, 5 + n)
  else none

/-- How many characters stand before the first open tag, and that tag. -/
def findOpenTag : List Char → Nat × Option (Kind × Nat)
  | [] => (0, none)
  | c :: s =>
    match openTag? (c :: s) with
    | some tag => (0, some tag)
    | none => let (n, tag) := findOpenTag s; (n + 1, tag)

/-- Length of a close tag with the line break that it takes along. -/
def closeTagLength (s : List Char) : Nat :=
  match s.drop 2 with
  | '\r' :: '\n' :: _ => 4
  | '\n' :: _ => 3
  | _ => 2

end Lexeme

end PhpOutline
