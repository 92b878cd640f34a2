import PhpOutline.Text.Alphabetic

/-!
# Heredocs

A heredoc opens with three angle brackets and a label, which may be quoted, on the rest of a line.
It is closed by the first line that starts, after blanks, with the label, unless the label goes on
there as a longer word.
-/

namespace PhpOutline.Lexeme

def isLabelStart (c : Char) : Bool := c.isAlpha || c == '_'

def isLabelRest (c : Char) : Bool := isLabelStart c || c.isDigit

def isBlank (c : Char) : Bool := c == ' ' || c == '\t'

/-- The label that a text starts with. -/
def label : List Char → List Char
  | [] => []
  | c :: s => if isLabelStart c then c :: s.takeWhile isLabelRest else []

/-- Length of the line break that a text starts with. -/
def lineBreakLength : List Char → Nat
  | '\r' :: '\n' :: _ => 2
  | '\n' :: _ => 1
  | _ => 0

structure HeredocHeader where
  label : List Char
  length : Nat

/-- The label and its quotes: how many characters they take. -/
def labelPart? : List Char → Option (List Char × Nat)
  | [] => none
  | q :: s =>
    if q = '"' ∨ q = '\'' then
      match label s with
      | [] => none
      | l => if (s.drop l.length).head? = some q then some (l, l.length + 2) else none
    else
      match label (q :: s) with
      | [] => none
      | l => some (l, l.length)

/-- The header of a heredoc at the start of a text. -/
def heredocHeader? (s : List Char) : Option HeredocHeader :=
  if ['<', '<', '<'].isPrefixOf s then
    let blanks := ((s.drop 3).takeWhile isBlank).length
    match labelPart? (s.drop (3 + blanks)) with
    | none => none
    | some (l, n) =>
      match lineBreakLength (s.drop (3 + blanks + n)) with
      | 0 => none
      | b + 1 => some ⟨l, 3 + blanks + n + (b + 1)⟩
  else none

/-- Whether a line closes the heredoc with the given label. -/
def closesHeredoc (label line : List Char) : Bool :=
  let s := line.dropWhile isBlank
  label.isPrefixOf s &&
    match s.drop label.length with
    | [] => true
    | c :: _ => !(Text.isAlphanumeric c || c == '_')

/-- The length of the lines before the closing one, and of that line's blanks and label. -/
def heredocBody? (label s : List Char) : Option (Nat × Nat) :=
  if closesHeredoc label s then some (0, (s.takeWhile isBlank).length + label.length)
  else
    let line := (s.takeWhile (· ≠ '\n')).length
    if line < s.length then
      (heredocBody? label (s.drop (line + 1))).map fun (body, close) => (line + 1 + body, close)
    else none
termination_by s.length
decreasing_by simp only [List.length_drop]; omega

end PhpOutline.Lexeme
