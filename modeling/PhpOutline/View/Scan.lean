import PhpOutline.View.Navigation

/-!
# Scans

The declarations in a view are found by a scan: it goes from one keyword to the next at the same
depth, reads what the keyword starts and goes on behind it. What it finds is a listing, which may
end in an error.

A listing gives all items at once. Asked for one item after another, an enumeration is a cursor: it
keeps a state to go on from, and once nothing more comes, or an error has been handed out, it is
done for good.
-/

namespace PhpOutline

/-- Items found one after another, and the error that ended the search, if any. -/
structure Listing (α : Type) where
  items : List α := []
  error : Option Error := none

namespace Listing

variable {α : Type}

/-- The items, unless an error came after them. -/
def get (l : Listing α) : Except Error (List α) :=
  match l.error with
  | none => .ok l.items
  | some e => .error e

/-- The items in order, and then the error. -/
def results (l : Listing α) : List (Except Error α) :=
  l.items.map .ok ++ l.error.toList.map .error

/-- Puts items before a listing. -/
def after (l : Listing α) (items : List α) : Listing α := ⟨items ++ l.items, l.error⟩

end Listing

/-- What is read at one place: the items, and the index to go on from. -/
structure Reading (α : Type) where
  items : List α := []
  next : Except Error Nat

namespace Reading

variable {α : Type}

/-- Nothing is declared here. -/
def skip (next : Nat) : Reading α := ⟨[], .ok next⟩

/-- One item, or the error that stands in its place. -/
def ofItem (r : Except Error (α × Nat)) : Reading α :=
  match r with
  | .error e => ⟨[], .error e⟩
  | .ok (item, next) => ⟨[item], .ok next⟩

end Reading

/-- A declaration: its name and the view of its body or value. -/
structure Item where
  name : String
  view : View

/-- An enumeration that hands out one item after another, given by its steps. A step fails, or it
finds nothing more, or it finds an item and the state to go on from, if there is one. -/
abbrev Cursor (σ α : Type) : Type := σ → Except Error (Option (α × Option σ))

/-- One call for the next item, with the state after it. Without a state the enumeration is done. -/
def Cursor.next {σ α : Type} (c : Cursor σ α) : Option σ → Option (Except Error α) × Option σ
  | none => (none, none)
  | some s =>
    match c s with
    | .error e => (some (.error e), none)
    | .ok none => (none, none)
    | .ok (some (a, t)) => (some (.ok a), t)

namespace View

/-- Reads at every sibling with a kind in the set, from an index on. -/
def scan {α : Type} (v : View) (set : KindSet) (read : v.Pos → Reading α) (i : Nat) : Listing α :=
  match _h : v.sibling? set i with
  | none => {}
  | some p =>
    let r := read p
    match r.next with
    | .error e => ⟨r.items, some e⟩
    | .ok next => (v.scan set read (max next (p + 1))).after r.items
termination_by v.hi - i
decreasing_by
  have := sibling?_bounds (by assumption)
  omega

section

variable {α σ : Type} (v : View)

/-- What a keyword declares as one reading. A keyword without an entry declares nothing. -/
def entryReading (entry : v.Pos → Option (Except Error (α × Nat))) (keyword : v.Pos) : Reading α :=
  match entry keyword with
  | none => .skip (keyword + 1)
  | some r => .ofItem r

/-- Goes from keyword to keyword up to the first one that has an entry. -/
def entryStep (set : KindSet) (entry : v.Pos → Option (Except Error (α × σ))) (i : Nat) :
    Except Error (Option (α × Option σ)) :=
  match _h : v.sibling? set i with
  | none => .ok none
  | some p =>
    match entry p with
    | none => entryStep set entry (p + 1)
    | some (.error e) => .error e
    | some (.ok (a, next)) => .ok (some (a, some next))
termination_by v.hi - i
decreasing_by
  have := sibling?_bounds (by assumption)
  omega

def entryCursor (set : KindSet) (entry : v.Pos → Option (Except Error (α × Nat))) : Cursor Nat α :=
  v.entryStep set entry

end

end View

end PhpOutline
