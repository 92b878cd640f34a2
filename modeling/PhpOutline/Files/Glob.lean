/-!
# Patterns for paths

In a pattern `*` and `?` stand for text without a slash, a double star between slashes for any
number of directories, brackets for one byte and braces for a choice. Patterns match the bytes of
a path as a whole.
-/

namespace PhpOutline

namespace Glob

/-- A part of a pattern. A choice without branches stands for the empty text. The last three are a
double star before a slash at the start, between slashes and after a slash at the end; they take
these slashes with them. -/
inductive Piece
  | text (bytes : List UInt8)
  | anyByte
  | star
  | byteIn (negated : Bool) (ranges : List (UInt8 × UInt8))
  | choice (branches : List (List Piece))
  | anyLead
  | anyInner
  | anyTail

def slash : UInt8 := 0x2F

def bytesOf (c : Char) : List UInt8 := (String.singleton c).toUTF8.toList

/-! ## Matching -/

/-- What may be left after a star. -/
def afterStar : List UInt8 → List (List UInt8)
  | [] => [[]]
  | b :: t => (b :: t) :: if b = slash then [] else afterStar t

/-- What stands after each slash. -/
def afterSlash : List UInt8 → List (List UInt8)
  | [] => []
  | b :: t => if b = slash then t :: afterSlash t else afterSlash t

def suffixes : List UInt8 → List (List UInt8)
  | [] => [[]]
  | b :: t => (b :: t) :: suffixes t

mutual

/-- What may be left of a text after a piece has matched the start of it. -/
def Piece.rests : Piece → List UInt8 → List (List UInt8)
  | .text bytes, t => if bytes.isPrefixOf t then [t.drop bytes.length] else []
  | .anyByte, t =>
    match t with
    | [] => []
    | b :: t => if b = slash then [] else [t]
  | .star, t => afterStar t
  | .byteIn negated ranges, t =>
    match t with
    | [] => []
    | b :: t => if (ranges.any fun r => r.1 ≤ b && b ≤ r.2) != negated then [t] else []
  | .choice [], t => [t]
  | .choice (ps :: branches), t => restsOfAll ps [t] ++ restsOfAny branches t
  | .anyLead, t => t :: afterSlash t
  | .anyInner, t =>
    match t with
    | [] => []
    | b :: t => if b = slash then t :: afterSlash t else []
  | .anyTail, t =>
    match t with
    | [] => []
    | b :: t => if b = slash then suffixes t else []

/-- What may be left after all pieces, one after the other, from any of the given texts. -/
def restsOfAll : List Piece → List (List UInt8) → List (List UInt8)
  | [], ts => ts
  | p :: ps, ts => restsOfAll ps (ts.flatMap p.rests).eraseDups

/-- What may be left after one of the branches. -/
def restsOfAny : List (List Piece) → List UInt8 → List (List UInt8)
  | [], _ => []
  | ps :: branches, t => restsOfAll ps [t] ++ restsOfAny branches t

end

end Glob

/-- A pattern. -/
structure Glob where
  pieces : List Glob.Piece

namespace Glob

/-- Whether a pattern matches a whole path. A double star alone matches all of them. -/
def accepts (g : Glob) (path : List UInt8) : Bool :=
  match g.pieces with
  | [.anyLead] => true
  | ps => (restsOfAll ps [path]).any List.isEmpty

/-! ## Reading a pattern -/

/-- The bytes from one character to another. The bytes of a character past ASCII count one by
one. -/
def byteRanges (lo hi : Char) : List (UInt8 × UInt8) :=
  if lo = hi then (bytesOf lo).map fun b => (b, b)
  else
    let starts := bytesOf lo
    let ends := bytesOf hi
    starts.dropLast.map (fun b => (b, b)) ++ [(starts.getLastD 0, ends.headD 0)] ++
      ends.tail.map fun b => (b, b)

/-- The ranges of characters between brackets, from the last to the first, and the text after the
closing bracket. `dash` says that a dash has been read after the last range. -/
def ranges? (found : List (Char × Char)) (dash : Bool) :
    List Char → Option (List (Char × Char) × List Char)
  | [] => none
  | c :: s =>
    match found with
    | [] => ranges? [(c, c)] false s
    | (lo, hi) :: more =>
      if c = ']' then some (if dash then ('-', '-') :: found else found, s)
      else if dash then ranges? ((lo, c) :: more) false s
      else if c = '-' then ranges? ((lo, hi) :: more) true s
      else ranges? ((c, c) :: (lo, hi) :: more) false s

theorem length_lt_of_ranges? {found r : List (Char × Char)} {dash : Bool} {s rest : List Char}
    (h : ranges? found dash s = some (r, rest)) : rest.length < s.length := by
  fun_induction ranges? found dash s <;> grind

/-- The text after a sign of negation, and whether there is one. -/
def negation : List Char → Bool × List Char
  | '!' :: s => (true, s)
  | '^' :: s => (true, s)
  | s => (false, s)

/-- A piece for one byte in some ranges of characters; none of them may run backwards. -/
def byteIn? (negated : Bool) (found : List (Char × Char)) : Option Piece :=
  if found.all fun r => r.1.toNat ≤ r.2.toNat then
    some (.byteIn negated (found.flatMap fun r => byteRanges r.1 r.2))
  else none

theorem length_negation (s : List Char) : (negation s).2.length ≤ s.length := by
  unfold negation
  split <;> simp

/-- A choice between braces that is still open: its finished branches, and what stands before it,
both from the last to the first. -/
structure Choice where
  branches : List (List Piece)
  before : List Piece

def Piece.isEmpty : Piece → Bool
  | .choice [] => true
  | _ => false

/-- The pieces up to a choice and with it. Empty branches do not count. -/
def Choice.close (o : Choice) (branch : List Piece) : List Piece :=
  let branches := (branch.reverse :: o.branches).reverse
  .choice (branches.filter fun ps => !ps.all Piece.isEmpty) :: o.before

/-- Where a pattern is being read: the character before, the pieces of the current branch from the
last to the first, and the choices that are open. -/
structure Draft where
  before : Option Char := none
  pieces : List Piece := []
  outer : List Choice := []

def Draft.push (d : Draft) (c : Char) (p : Piece) : Draft :=
  { d with before := some c, pieces := p :: d.pieces }

/-- Reads two stars, after which the text `s` follows. The answer says whether the slash after
them belongs to them. -/
def Draft.doubleStar (d : Draft) (s : List Char) : Draft × Bool :=
  let next := s.head?
  let plain := { d with before := some '*', pieces := .star :: .star :: d.pieces }
  let opensBranch := !d.outer.isEmpty && (d.before == some ',' || d.before == some '\x7b')
  let endsBranch := !d.outer.isEmpty && (next == some ',' || next == some '\x7d')
  if d.pieces.isEmpty then
    if next.isNone then (d.push '*' .anyLead, false)
    else if next == some '/' then (d.push '/' .anyLead, true)
    else (plain, false)
  else if d.before != some '/' && !opensBranch then (plain, false)
  else
    let put (c : Char) (p : Piece) : Draft :=
      match d.pieces with
      | .anyLead :: _ => { d with before := some c }
      | .anyTail :: _ => { d with before := some c }
      | _ => { d with before := some c, pieces := p :: d.pieces.tail }
    if next.isNone || endsBranch then (put '*' .anyTail, false)
    else if next == some '/' then (put '/' .anyInner, true)
    else (plain, false)

/-- Reads the rest of a pattern. A bracket without its partner stands for itself, and so do all
brackets after it (`literal`); braces have to be closed. -/
def read? (literal : Bool) (d : Draft) (s : List Char) : Option (List Piece) :=
  match s with
  | [] => if d.outer.isEmpty then some d.pieces.reverse else none
  | '?' :: s => read? literal (d.push '?' .anyByte) s
  | '*' :: '*' :: s =>
    match d.doubleStar s with
    | (d, false) => read? literal d s
    | (d, true) => read? literal d s.tail
  | '*' :: s => read? literal (d.push '*' .star) s
  | '\x7b' :: s => read? literal ⟨some '\x7b', [], ⟨[], d.pieces⟩ :: d.outer⟩ s
  | '\\' :: [] => none
  | '\\' :: c :: s => read? literal (d.push c (.text (bytesOf c))) s
  | c :: s =>
    if c = '[' && !literal then
      match _h : ranges? [] false (negation s).2 with
      | none => read? true (d.push c (.text (bytesOf c))) s
      | some (found, rest) =>
        match byteIn? (negation s).1 found with
        | none => none
        | some p => read? literal (d.push ']' p) rest
    else
      match d.outer with
      | [] => if c = '\x7d' then none else read? literal (d.push c (.text (bytesOf c))) s
      | o :: outer =>
        if c = '\x7d' then read? literal ⟨some c, o.close d.pieces, outer⟩ s
        else if c = ',' then
          read? literal ⟨some c, [], ⟨d.pieces.reverse :: o.branches, o.before⟩ :: outer⟩ s
        else read? literal (d.push c (.text (bytesOf c))) s
termination_by s.length
decreasing_by
  all_goals
    have := length_negation s
    grind [→ length_lt_of_ranges?]

def parse? (pattern : String) : Option Glob := (read? false {} pattern.toList).map (⟨·⟩)

end Glob

end PhpOutline
