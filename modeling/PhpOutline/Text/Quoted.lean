import PhpOutline.Text.Printable

/-!
# Quoted text

Text between quotes on one line, with the characters that cannot be shown written as escapes. The
other quote, the one that does not enclose the text, stands for itself.
-/

namespace PhpOutline.Text

/-- The code point of a character in lower-case hexadecimal digits. -/
def hexDigits (c : Char) : List Char := Nat.toDigits 16 c.toNat

/-- One character between two `quote`s. -/
def escape (quote c : Char) : List Char :=
  if c = '\x00' then ['\\', '0']
  else if c = '\t' then ['\\', 't']
  else if c = '\r' then ['\\', 'r']
  else if c = '\n' then ['\\', 'n']
  else if c = '\\' ∨ c = quote then ['\\', c]
  else if isExtending c ∨ ¬ isPrintable c then
    "\\u\x7b".toList ++ hexDigits c ++ ['\x7d']
  else [c]

/-- A text between double quotes. -/
def quoted (s : String) : String :=
  .ofList ('"' :: s.toList.flatMap (escape '"') ++ ['"'])

/-- A character between single quotes. -/
def quotedChar (c : Char) : String :=
  .ofList ('\'' :: escape '\'' c ++ ['\''])

end PhpOutline.Text
