/-!
# TOML strings

Basic strings have escapes, literal strings have none; either may run over several lines between
tripled quotes. A reader takes the text after the opening quote and gives the content and the text
after the closing quote.
-/

namespace PhpOutline.Toml

/-- Whether a character may stand in a string or a comment as itself. -/
def isPlain (c : Char) : Bool := c == '\t' || (0x20 ≤ c.toNat && c.toNat ≠ 0x7F)

def hexValue? (c : Char) : Option Nat :=
  if c.isDigit then some (c.toNat - '0'.toNat)
  else if 'a' ≤ c && c ≤ 'f' then some (c.toNat - 'a'.toNat + 10)
  else if 'A' ≤ c && c ≤ 'F' then some (c.toNat - 'A'.toNat + 10)
  else none

/-- The character whose number is given by hexadecimal digits. -/
def charOfHex? (digits : List Char) : Option Char := do
  let values ← digits.mapM hexValue?
  let n := values.foldl (fun n d => 16 * n + d) 0
  if n.isValidChar then some (Char.ofNat n) else none

/-- The character after a backslash, and how many characters it takes. -/
def escape? : List Char → Option (Char × Nat)
  | 'b' :: _ => some ('\x08', 1)
  | 't' :: _ => some ('\t', 1)
  | 'n' :: _ => some ('\n', 1)
  | 'f' :: _ => some ('\x0c', 1)
  | 'r' :: _ => some ('\r', 1)
  | '"' :: _ => some ('"', 1)
  | '\\' :: _ => some ('\\', 1)
  | 'u' :: s => if 4 ≤ s.length then (charOfHex? (s.take 4)).map (·, 5) else none
  | 'U' :: s => if 8 ≤ s.length then (charOfHex? (s.take 8)).map (·, 9) else none
  | _ => none

/-- A basic string on one line. -/
def basicString? (s : List Char) : Option (List Char × List Char) :=
  match s with
  | [] => none
  | '"' :: rest => some ([], rest)
  | '\\' :: rest =>
    match escape? rest with
    | none => none
    | some (c, n) => (basicString? (rest.drop n)).map fun (text, rest) => (c :: text, rest)
  | c :: rest =>
    if isPlain c then (basicString? rest).map fun (text, rest) => (c :: text, rest) else none
termination_by s.length
decreasing_by all_goals simp only [List.length_drop, List.length_cons]; omega

/-- A literal string on one line. -/
def literalString? : List Char → Option (List Char × List Char)
  | [] => none
  | '\'' :: rest => some ([], rest)
  | c :: rest =>
    if isPlain c then (literalString? rest).map fun (text, rest) => (c :: text, rest) else none

/-- The text after a line break at its start, if there is one. -/
def afterBreak? : List Char → Option (List Char)
  | '\n' :: s => some s
  | '\r' :: '\n' :: s => some s
  | _ => none

/-- The text after the blanks and line breaks at its start. -/
def skipBreaks : List Char → List Char
  | '\r' :: '\n' :: s => skipBreaks s
  | c :: s => if c = ' ' ∨ c = '\t' ∨ c = '\n' then skipBreaks s else c :: s
  | [] => []

theorem length_skipBreaks (s : List Char) : (skipBreaks s).length ≤ s.length := by
  fun_induction skipBreaks s <;> simp_all <;> omega

/-- Whether only blanks stand before the next line break. -/
def blankToBreak (s : List Char) : Bool :=
  (afterBreak? (s.dropWhile fun c => c = ' ' ∨ c = '\t')).isSome

/-- The content of a string over several lines, between tripled quotes. One or two quotes may
stand in it, also right before the closing ones. -/
def longString? (quote : Char) (s : List Char) : Option (List Char × List Char) :=
  match s with
  | [] => none
  | '\r' :: '\n' :: rest => (longString? quote rest).map fun (text, rest) => ('\n' :: text, rest)
  | c :: rest =>
    if c = quote then
      let n := 1 + (rest.takeWhile (· = quote)).length
      if 3 ≤ n then
        if n ≤ 5 then some (List.replicate (n - 3) quote, rest.drop (n - 1)) else none
      else
        (longString? quote (rest.drop (n - 1))).map fun (text, rest) =>
          (List.replicate n quote ++ text, rest)
    else if c = '\\' ∧ quote = '"' then
      if blankToBreak rest then longString? quote (skipBreaks rest)
      else
        match escape? rest with
        | none => none
        | some (c, n) =>
          (longString? quote (rest.drop n)).map fun (text, rest) => (c :: text, rest)
    else if isPlain c ∨ c = '\n' then
      (longString? quote rest).map fun (text, rest) => (c :: text, rest)
    else none
termination_by s.length
decreasing_by
  all_goals
    have := length_skipBreaks rest
    simp only [List.length_drop, List.length_cons]
    omega

/-- The string that starts with the given text. -/
def string? (s : List Char) : Option (String × List Char) :=
  let long (quote : Char) (s : List Char) := longString? quote ((afterBreak? s).getD s)
  let r := match s with
    | '"' :: '"' :: '"' :: s => long '"' s
    | '\'' :: '\'' :: '\'' :: s => long '\'' s
    | '"' :: s => basicString? s
    | '\'' :: s => literalString? s
    | _ => none
  r.map fun (text, rest) => (.ofList text, rest)

end PhpOutline.Toml
