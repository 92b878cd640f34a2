import PhpOutline.Kind

/-!
# Numbers

A number is a hexadecimal, binary or octal integer with its mark, or a decimal one with an
optional fraction and exponent. Single underscores may stand between digits.
-/

namespace PhpOutline.Lexeme

def isHexDigit (c : Char) : Bool :=
  c.isDigit || ('a' ≤ c && c ≤ 'f') || ('A' ≤ c && c ≤ 'F')

def isBinaryDigit (c : Char) : Bool := c == '0' || c == '1'

def isOctalDigit (c : Char) : Bool := '0' ≤ c && c ≤ '7'

section

variable (isDigit : Char → Bool)

/-- Length of the further groups of digits, each after one underscore. -/
def groupsLength : List Char → Nat
  | '_' :: s =>
    match (s.takeWhile isDigit).length with
    | 0 => 0
    | n + 1 => 1 + (n + 1) + groupsLength (s.drop (n + 1))
  | _ => 0
termination_by s => s.length
decreasing_by simp only [List.length_drop, List.length_cons]; omega

/-- Length of a run of digit groups, zero if the text does not start with a digit. -/
def digitsLength (s : List Char) : Nat :=
  match (s.takeWhile isDigit).length with
  | 0 => 0
  | n + 1 => n + 1 + groupsLength isDigit (s.drop (n + 1))

/-- Length of an integer with a mark such as `0x`, zero if there is none. -/
def markedLength (mark : Char) : List Char → Nat
  | '0' :: m :: s =>
    if m.toLower = mark then
      match digitsLength isDigit s with
      | 0 => 0
      | n + 1 => 2 + (n + 1)
    else 0
  | _ => 0

end

/-- Length of the exponent that a text starts with, zero if there is none. -/
def exponentLength : List Char → Nat
  | e :: s =>
    if e = 'e' ∨ e = 'E' then
      let sign := match s with
        | '+' :: _ => 1
        | '-' :: _ => 1
        | _ => 0
      match digitsLength Char.isDigit (s.drop sign) with
      | 0 => 0
      | n + 1 => 1 + sign + (n + 1)
    else 0
  | [] => 0

/-- Length of the point and the digits after it; a lone point counts only after digits. -/
def fractionLength (whole : Nat) : List Char → Nat
  | '.' :: s =>
    match digitsLength Char.isDigit s with
    | 0 => if whole = 0 then 0 else 1
    | n + 1 => 1 + (n + 1)
  | _ => 0

/-- Length of a decimal number. -/
def decimalLength (s : List Char) : Nat :=
  let whole := digitsLength Char.isDigit s
  let fraction := fractionLength whole (s.drop whole)
  match whole + fraction with
  | 0 => 0
  | n + 1 => n + 1 + exponentLength (s.drop (n + 1))

/-- Length of the number that a text starts with, zero if there is none. -/
def numberLength (s : List Char) : Nat :=
  match markedLength isHexDigit 'x' s with
  | n + 1 => n + 1
  | 0 =>
    match markedLength isBinaryDigit 'b' s with
    | n + 1 => n + 1
    | 0 =>
      match markedLength isOctalDigit 'o' s with
      | n + 1 => n + 1
      | 0 => decimalLength s

/-- Whether a number has a mark for its base. -/
def isMarked : List Char → Bool
  | '0' :: m :: _ => ['x', 'b', 'o'].contains m.toLower
  | _ => false

/-- A number is a float if it has no mark and has a point or an exponent. -/
def numberKind (text : List Char) : Kind :=
  if !isMarked text && text.any (['.', 'e', 'E'].contains ·) then .dnumber else .lnumber

end PhpOutline.Lexeme
