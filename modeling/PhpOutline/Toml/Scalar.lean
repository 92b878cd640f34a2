import PhpOutline.Toml

/-!
# TOML numbers, truth values and dates

A scalar other than a string is a word without blanks, except that a blank may stand between a
date and a time. Integers have 64 bits.
-/

namespace PhpOutline.Toml

/-- Digits with single underscores between them, without the underscores. -/
def digits? (isDigit : Char → Bool) (s : List Char) : Option (List Char) :=
  let groups := s.splitOn '_'
  if groups.all fun g => !g.isEmpty && g.all isDigit then some groups.flatten else none

def numeral (base : Nat) (digits : List Char) : Nat :=
  digits.foldl (fun n d => base * n +
    (if d.isDigit then d.toNat - '0'.toNat else d.toLower.toNat - 'a'.toNat + 10)) 0

/-- An integer, if it fits into 64 bits with a sign. -/
def ofInt? (n : Int) : Option Toml :=
  if -0x8000000000000000 ≤ n ∧ n < 0x8000000000000000 then some (int n) else none

/-- Decimal digits without a zero before others. -/
def wholePart? (s : List Char) : Option (List Char) :=
  (digits? Char.isDigit s).filter fun ds => ds.length == 1 || ds.head? != some '0'

def splitSign : List Char → Bool × List Char
  | '-' :: s => (true, s)
  | '+' :: s => (false, s)
  | s => (false, s)

def integer? (s : List Char) : Option Toml :=
  let marked (base : Nat) (isDigit : Char → Bool) (s : List Char) :=
    (digits? isDigit s).bind fun ds => ofInt? (numeral base ds)
  match s with
  | '0' :: 'x' :: s =>
    marked 16 (fun c => c.isDigit || ('a' ≤ c && c ≤ 'f') || ('A' ≤ c && c ≤ 'F')) s
  | '0' :: 'o' :: s => marked 8 (fun c => '0' ≤ c && c ≤ '7') s
  | '0' :: 'b' :: s => marked 2 (fun c => c == '0' || c == '1') s
  | _ =>
    let (negative, s) := splitSign s
    (wholePart? s).bind fun ds =>
      ofInt? (if negative then -(numeral 10 ds) else numeral 10 ds)

/-- Whether a decimal number with the given digits, times a power of ten, rounds to a finite
double. -/
def isFinite (digits : List Char) (exponent : Int) : Bool :=
  let digits := digits.dropWhile (· = '0')
  let size := digits.length + exponent
  let bound := Nat.pow 2 1024 - Nat.pow 2 970
  if digits.isEmpty ∨ size ≤ 300 then true
  else if 310 ≤ size then false
  else numeral 10 digits * Nat.pow 10 exponent.toNat < bound * Nat.pow 10 (-exponent).toNat

/-- A number with a fraction or an exponent, or one of the special numbers. Only a negative number
may be too large for a double. -/
def isFloat (s : List Char) : Bool :=
  let (negative, s) := splitSign s
  if s = "inf".toList ∨ s = "nan".toList then true
  else
    let mantissa := s.takeWhile fun c => c ≠ 'e' ∧ c ≠ 'E'
    let exponent := s.drop mantissa.length
    let whole := mantissa.takeWhile (· ≠ '.')
    let fraction := mantissa.drop whole.length
    let (down, power) := splitSign (exponent.drop 1)
    let parts : Option (List Char × List Char × List Char) := do
      let w ← wholePart? whole
      let f ← if fraction.isEmpty then some [] else digits? Char.isDigit (fraction.drop 1)
      let e ← if exponent.isEmpty then some [] else digits? Char.isDigit power
      return (w, f, e)
    match parts with
    | none => false
    | some (w, f, e) =>
      let power : Int := if down then -(numeral 10 e) else numeral 10 e
      !(exponent.isEmpty && fraction.isEmpty) && (negative || isFinite (w ++ f) (power - f.length))

/-! ## Dates and times -/

/-- The number that a text of decimal digits of the given length stands for. -/
def field? (length : Nat) (s : List Char) : Option Nat :=
  if s.length = length ∧ s.all Char.isDigit then some (numeral 10 s) else none

def daysIn (year month : Nat) : Nat :=
  if month = 2 then
    if year % 4 = 0 ∧ (year % 100 ≠ 0 ∨ year % 400 = 0) then 29 else 28
  else if [4, 6, 9, 11].contains month then 30
  else 31

def isDate (s : List Char) : Bool :=
  match (s.splitOn '-') with
  | [y, m, d] =>
    match field? 4 y, field? 2 m, field? 2 d with
    | some y, some m, some d => 1 ≤ m && m ≤ 12 && 1 ≤ d && d ≤ daysIn y m
    | _, _, _ => false
  | _ => false

def isClock (s : List Char) (most : Nat) : Bool := (field? 2 s).any (· ≤ most)

def isTime (s : List Char) : Bool :=
  let clock := s.takeWhile (· ≠ '.')
  let fraction := s.drop clock.length
  (match clock.splitOn ':' with
    | [h, m, sec] => isClock h 23 && isClock m 59 && isClock sec 60
    | _ => false) &&
    (fraction.isEmpty || (1 < fraction.length && (fraction.drop 1).all Char.isDigit))

def isOffset (s : List Char) : Bool :=
  match s with
  | [c] => c == 'Z' || c == 'z'
  | c :: s =>
    (c == '+' || c == '-') &&
      match s.splitOn ':' with
      | [h, m] => isClock h 23 && isClock m 59
      | _ => false
  | [] => false

/-- A time with an offset or without. -/
def isOffsetTime (s : List Char) : Bool :=
  let time := s.takeWhile fun c => c.isDigit || c == ':' || c == '.'
  isTime time && (time.length == s.length || isOffset (s.drop time.length))

def isDateTime (s : List Char) : Bool :=
  let date := s.take 10
  match s.drop 10 with
  | [] => isDate date || isTime s
  | c :: time => isTime s || (isDate date && ['T', 't', ' '].contains c && isOffsetTime time)

/-! ## All scalars -/

def isWordChar (c : Char) : Bool := c.isAlphanum || ['_', '+', '-', '.', ':'].contains c

/-- Reads a scalar word and gives the text after it. -/
def scalar? (s : List Char) : Option (Toml × List Char) :=
  let word := s.takeWhile isWordChar
  let rest := s.drop word.length
  let word :=
    match rest with
    | ' ' :: c :: more =>
      if isDate word && c.isDigit then word ++ ' ' :: (c :: more).takeWhile isWordChar else word
    | _ => word
  let value :=
    if word = "true".toList then some (bool true)
    else if word = "false".toList then some (bool false)
    else if isDateTime word then some date
    else if isFloat word then some float
    else integer? word
  value.map (·, s.drop word.length)

end PhpOutline.Toml
