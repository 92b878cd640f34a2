/-!
# Names

An identifier starts with a letter, an underscore or any character past ASCII, and goes on with
those and digits. A name is a sequence of identifiers with a separator between each two, and may
start with one more separator.
-/

namespace PhpOutline.Lexeme

def isIdentStart (c : Char) : Bool := c.isAlpha || c == '_' || 0x80 ≤ c.toNat

def isIdentRest (c : Char) : Bool := isIdentStart c || c.isDigit

/-- Length of the identifier that a text starts with, zero if there is none. -/
def identLength : List Char → Nat
  | [] => 0
  | c :: s => if isIdentStart c then 1 + (s.takeWhile isIdentRest).length else 0

/-- Length of the further segments of a name, each a separator and an identifier. -/
def segmentsLength : List Char → Nat
  | '\\' :: s =>
    match _h : identLength s with
    | 0 => 0
    | n + 1 => 1 + (n + 1) + segmentsLength (s.drop (n + 1))
  | _ => 0
termination_by s => s.length
decreasing_by simp only [List.length_drop, List.length_cons]; omega

/-- Length of the name that a text starts with, zero if there is none. -/
def nameLength (s : List Char) : Nat :=
  let lead := if ['\\'].isPrefixOf s then 1 else 0
  match identLength (s.drop lead) with
  | 0 => 0
  | n + 1 => lead + (n + 1) + segmentsLength (s.drop (lead + (n + 1)))

/-- Length of the variable that a text starts with: a dollar sign and an identifier. -/
def variableLength : List Char → Nat
  | '$' :: s =>
    match identLength s with
    | 0 => 0
    | n + 1 => 1 + (n + 1)
  | _ => 0

end PhpOutline.Lexeme
