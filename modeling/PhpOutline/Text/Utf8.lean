/-!
# Decoding UTF-8

`decode` reads bytes as UTF-8 and gives the characters, or the number of bytes before the first
one that does not belong to a well-formed sequence. Overlong forms, surrogates and numbers past
the last code point are not well formed.

A line of a file ends with a line feed, before which a carriage return may stand. The end does not
belong to the line, and the last line need not have one.
-/

namespace PhpOutline.Text

/-- The six payload bits of a continuation byte. -/
def continuation? (b : UInt8) : Option Nat :=
  if 0x80 ≤ b ∧ b < 0xC0 then some (b.toNat - 0x80) else none

/-- The code point, if it is one and needs at least the given number. -/
def codePoint? (least n : Nat) : Option Char :=
  if h : least ≤ n ∧ n.isValidChar then some (Char.ofNatAux n h.2) else none

/-- The first character of the bytes and what follows it. -/
def decodeOne? : List UInt8 → Option (Char × List UInt8)
  | [] => none
  | b :: bs =>
    if b < 0x80 then some (Char.ofUInt8 b, bs)
    else if 0xC0 ≤ b ∧ b < 0xE0 then
      match bs with
      | b₁ :: bs => do
        let x₁ ← continuation? b₁
        let c ← codePoint? 0x80 ((b.toNat - 0xC0) * 0x40 + x₁)
        return (c, bs)
      | _ => none
    else if 0xE0 ≤ b ∧ b < 0xF0 then
      match bs with
      | b₁ :: b₂ :: bs => do
        let x₁ ← continuation? b₁
        let x₂ ← continuation? b₂
        let c ← codePoint? 0x800 (((b.toNat - 0xE0) * 0x40 + x₁) * 0x40 + x₂)
        return (c, bs)
      | _ => none
    else if 0xF0 ≤ b ∧ b < 0xF8 then
      match bs with
      | b₁ :: b₂ :: b₃ :: bs => do
        let x₁ ← continuation? b₁
        let x₂ ← continuation? b₂
        let x₃ ← continuation? b₃
        let c ← codePoint? 0x10000
          ((((b.toNat - 0xF0) * 0x40 + x₁) * 0x40 + x₂) * 0x40 + x₃)
        return (c, bs)
      | _ => none
    else none

theorem length_lt_of_decodeOne? {bs rest : List UInt8} {c : Char}
    (h : decodeOne? bs = some (c, rest)) : rest.length < bs.length := by
  unfold decodeOne? at h
  split at h
  · cases h
  · rename_i b bs
    repeat' split at h
    all_goals simp [bind, Option.bind] at h
    all_goals grind

/-- Decodes `bs`, which follows `offset` bytes that are well formed. -/
def decodeFrom (offset : Nat) (bs : List UInt8) : Except Nat (List Char) :=
  if bs.isEmpty then .ok []
  else
    match _h : decodeOne? bs with
    | none => .error offset
    | some (c, rest) => (decodeFrom (offset + (bs.length - rest.length)) rest).map (c :: ·)
termination_by bs.length
decreasing_by exact length_lt_of_decodeOne? (by assumption)

def decode (bs : List UInt8) : Except Nat String := (decodeFrom 0 bs).map String.ofList

/-- The bytes of each line. -/
def byteLines (bytes : List UInt8) : List (List UInt8) :=
  let pieces := bytes.splitOn 10
  let last := pieces.getLastD []
  let ended := pieces.dropLast.map fun l => if l.getLast? = some 13 then l.dropLast else l
  if last.isEmpty then ended else ended ++ [last]

/-- The lines of a file up to the first one that is not in UTF-8. -/
def lines (bytes : List UInt8) : List String :=
  ((byteLines bytes).map fun l => (decode l).toOption).takeWhile Option.isSome |>.filterMap id

end PhpOutline.Text
