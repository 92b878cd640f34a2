import PhpOutline.View

/-!
# Moving about in a view

Code neighbours inside the view, siblings at the same depth of brackets, and the code between two
positions. A search for siblings steps over bracket pairs as a whole and ends at a closing bracket
or at the end of the view.
-/

namespace PhpOutline

namespace View

section

variable (v : View)

/-! ## Neighbours -/

def isCode (i : v.Pos) : Bool := v.graph.taxonomy.isCode (v.kind i)

def nextCode? (i : v.Pos) : Option v.Pos :=
  ((v.node i).nextCode.filter (· < v.hi)).bind v.pos?

def prevCode? (i : v.Pos) : Option v.Pos :=
  ((v.node i).prevCode.filter (v.lo ≤ ·)).bind v.pos?

/-- The code nodes of the view before a node, nearest first. -/
def codeBefore (n : Node) : List Node :=
  (v.graph.trail (·.prevCode) n).takeWhile (v.lo ≤ ·.index)

/-- Whether the nearest code token before a position is of a kind. -/
def follows (i : v.Pos) (k : Kind) : Bool := (v.prevCode? i).any (v.kind · == k)

/-- The positions from `a` up to and without `b`. -/
def between (a b : Nat) : List v.Pos := (List.range' a (b - a)).filterMap v.pos?

/-- The next token that is code or ends a statement. -/
def nextCodeOrEnd? (i : v.Pos) : Option v.Pos :=
  (v.between (i + 1) v.hi).find? fun j =>
    v.isCode j || v.graph.taxonomy.terminators.contains (v.kind j)

def hasCode (a b : Nat) : Bool := (v.between a b).any v.isCode

/-- The range from the first to the last code token between a position and `stop`, empty at `stop`
if there is none. -/
def valueRange (i : v.Pos) (stop : Nat) : Nat × Nat :=
  let code := (v.between (i + 1) stop).filter v.isCode
  match code.head?, code.getLast? with
  | some first, some last => (first, last + 1)
  | _, _ => (stop, stop)

/-- The index of a bracket's partner. -/
def closer (i : v.Pos) : Except Error Nat :=
  match (v.node i).closedBy with
  | some c => .ok c
  | none => .error (.structural (v.node i).line (.neverClosed (v.node i).text))

/-! ## Marks -/

/-- The position of a mark, if it lies in the view. -/
def position? (m : Mark) : Option v.Pos :=
  if m.arena = v.arena ∧ v.lo ≤ m.node.index ∧ m.node.index < v.hi then v.pos? m.node.index
  else none

def contains (m : Mark) : Bool := (v.position? m).isSome

def nextCodeOf? (m : Mark) : Option Node := ((v.position? m).bind v.nextCode?).map v.node

def prevCodeOf? (m : Mark) : Option Node := ((v.position? m).bind v.prevCode?).map v.node

/-! ## Siblings -/

/-- The first position from `i` on, at the depth of `i`, with a kind in the set. -/
def sibling? (set : KindSet) (i : Nat) : Option v.Pos :=
  if i < v.hi then
    match v.pos? i with
    | none => none
    | some p =>
      if set.contains (v.kind p) then some p
      else if v.graph.taxonomy.isOpener (v.kind p) then
        match (v.node p).closedBy with
        | some c => if i < c then sibling? set (c + 1) else none
        | none => none
      else if v.graph.taxonomy.isCloser (v.kind p) then none
      else sibling? set (i + 1)
  else none
termination_by v.hi - i

end

theorem val_of_pos? {v : View} {i : Nat} {p : v.Pos} (h : v.pos? i = some p) : p.val = i := by
  unfold pos? at h
  split at h
  · cases h; rfl
  · cases h

theorem mem_between {v : View} {a b : Nat} {p : v.Pos} : p ∈ v.between a b ↔ a ≤ p ∧ p < b := by
  rw [between, List.mem_filterMap]
  constructor
  · rintro ⟨i, hi, hp⟩
    obtain rfl := val_of_pos? hp
    rw [List.mem_range'_1] at hi
    omega
  · intro h
    refine ⟨p, List.mem_range'_1.mpr (by omega), ?_⟩
    rw [pos?, dif_pos p.isLt]

theorem sibling?_bounds {v : View} {set : KindSet} {i : Nat} {p : v.Pos}
    (h : v.sibling? set i = some p) : i ≤ p.val ∧ p.val < v.hi := by
  fun_induction sibling? v set i with
  | case1 => cases h
  | case2 i hi q hq _ => cases h; rw [val_of_pos? hq]; omega
  | case3 i _ _ _ _ _ c _ _ ih => have := ih h; omega
  | case4 => cases h
  | case5 => cases h
  | case6 => cases h
  | case7 i _ _ _ _ _ _ ih => have := ih h; omega
  | case8 => cases h

end View

end PhpOutline
