import PhpOutline.Kind

/-!
# Operators and punctuation
-/

namespace PhpOutline.Lexeme

/-- The operators of more than one character, the longer ones first. -/
def operators : List String :=
  ["**=", "...", "<=>", "===", "!==", "<<=", ">>=", "??=", "?->",
   "**", "++", "--", "->", "=>", "::", "==", "!=", "<>", "<=", ">=", "&&", "||", "??",
   "+=", "-=", "*=", "/=", ".=", "%=", "&=", "|=", "^=", "<<", ">>"]

def operatorKind (op : String) : Kind :=
  if op = "->" ∨ op = "?->" then .objectOperator
  else if op = "::" then .doubleColon
  else .operator

/-- The kind of a punctuation character that stands alone. -/
def punctuationKind? : Char → Option Kind
  | '\x7b' => some .openBrace
  | '\x7d' => some .closeBrace
  | '[' => some .openBracket
  | ']' => some .closeBracket
  | '(' => some .openParen
  | ')' => some .closeParen
  | ';' => some .semicolon
  | ',' => some .comma
  | '=' => some .equals
  | '&' => some .ampersand
  | c => if "+-*/%.!<>|^~@?:".toList.contains c then some .operator else none

/-- The operator or punctuation that a text starts with: its kind and length. -/
def operator? (s : List Char) : Option (Kind × Nat) :=
  match operators.find? (·.toList.isPrefixOf s) with
  | some op => some (operatorKind op, op.length)
  | none =>
    match s with
    | [] => none
    | c :: _ => (punctuationKind? c).map (·, 1)

end PhpOutline.Lexeme
