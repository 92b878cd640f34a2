import PhpOutline.Text.Alphabetic
import PhpOutline.View.Scan

/-!
# Constants

A constant declaration is its keyword and a list of names with values, separated by commas. The
view of a constant is its value, from the first to the last code token. An imported constant
declares nothing.
-/

namespace PhpOutline

namespace View

section

variable (v : View)

/-- Where a value ends. -/
def valueEnd : KindSet := v.graph.taxonomy.terminators.insert .comma

/-- The name that stands before an equals sign and after `start`. -/
def constantName? (start equals : v.Pos) : Option v.Pos :=
  (v.prevCode? equals).filter fun i => start < i && Text.isIdentifier (v.node i).text

/-- What stands before the value of a constant: the equals sign, the name and the scope of the
value. `start` is the keyword of the declaration or the comma before the name. -/
def constantHead (start : v.Pos) : Except Error (v.Pos × String × Scope) :=
  match v.sibling? (v.valueEnd.insert .equals) (start + 1) with
  | none => .error (.structural (v.node start).line .constantWithoutValue)
  | some equals =>
    if v.kind equals ≠ .equals then .error (.structural (v.node start).line .constantWithoutValue)
    else
      match v.constantName? start equals with
      | none => .error (.structural (v.node start).line .constantWithoutName)
      | some nameAt => do
        let name := (v.node nameAt).text
        let scope ← v.scope.enterMember ⟨.constant, name, v.mark nameAt⟩
        return (equals, name, scope)

/-- One constant of a declaration, the index at which it ends, and the comma there if another one
follows. -/
def constantAt (start : v.Pos) : Except Error (Item × Nat × Option v.Pos) := do
  let (equals, name, scope) ← v.constantHead start
  let stop := v.sibling? v.valueEnd (equals + 1)
  let last := (stop.map (·.val)).getD v.hi
  let (lo, hi) := v.valueRange equals last
  return (⟨name, v.span lo hi scope⟩, last, stop.filter (v.kind · == .comma))

variable {v} in
theorem constantHead_ok {start equals : v.Pos} {name : String} {scope : Scope}
    (h : v.constantHead start = .ok (equals, name, scope)) :
    v.sibling? (v.valueEnd.insert .equals) (start + 1) = some equals ∧ v.kind equals = .equals ∧
      ∃ nameAt, v.constantName? start equals = some nameAt ∧ name = (v.node nameAt).text ∧
        v.scope.enterMember ⟨.constant, name, v.mark nameAt⟩ = .ok scope := by
  unfold constantHead at h
  split at h
  · cases h
  · rename_i e he
    split at h
    · cases h
    · rename_i hk
      split at h
      · cases h
      · rename_i nameAt hname
        obtain ⟨s, hs, h⟩ := of_bind_ok h
        cases h
        exact ⟨he, Decidable.not_not.mp hk, nameAt, hname, rfl, hs⟩

variable {v} in
theorem constantAt_ok {start : v.Pos} {item : Item} {last : Nat} {pending : Option v.Pos}
    (h : v.constantAt start = .ok (item, last, pending)) :
    ∃ equals scope, v.constantHead start = .ok (equals, item.name, scope) ∧
      last = ((v.sibling? v.valueEnd (equals + 1)).map (·.val)).getD v.hi ∧
      item.view = v.span (v.valueRange equals last).1 (v.valueRange equals last).2 scope ∧
      pending = (v.sibling? v.valueEnd (equals + 1)).filter (v.kind · == .comma) := by
  obtain ⟨⟨equals, name, scope⟩, hhead, h⟩ := of_bind_ok h
  cases h
  exact ⟨equals, scope, hhead, rfl, rfl, rfl⟩

variable {v} in
theorem constantAt_bounds {start : v.Pos} {item : Item} {last : Nat} {pending : Option v.Pos}
    (h : v.constantAt start = .ok (item, last, pending)) :
    start.val < last ∧ last ≤ v.hi ∧
      ∀ comma, pending = some comma → comma.val = last ∧ comma < v.hi := by
  obtain ⟨equals, scope, hhead, hlast, _, hpending⟩ := constantAt_ok h
  have hequals := sibling?_bounds (constantHead_ok hhead).1
  cases hstop : v.sibling? v.valueEnd (equals + 1) with
  | none =>
    rw [hstop, Option.map_none, Option.getD_none] at hlast
    refine ⟨by omega, by omega, fun comma hcomma => ?_⟩
    rw [hstop] at hpending
    cases hpending.symm.trans hcomma
  | some stop =>
    rw [hstop, Option.map_some, Option.getD_some] at hlast
    have hbounds := sibling?_bounds hstop
    refine ⟨by omega, by omega, ?_⟩
    rintro comma rfl
    rw [hstop] at hpending
    obtain ⟨heq, _⟩ := Option.filter_eq_some_iff.mp hpending.symm
    cases heq
    exact ⟨hlast.symm, hbounds.2⟩

/-- The constants of one declaration, from its keyword or from a comma in it on. -/
def constantsAt (start : v.Pos) : Reading Item :=
  match _h : v.constantAt start with
  | .error e => ⟨[], .error e⟩
  | .ok (item, last, none) => ⟨[item], .ok last⟩
  | .ok (item, _, some comma) => ⟨item :: (constantsAt comma).items, (constantsAt comma).next⟩
termination_by v.hi - start
decreasing_by all_goals
  obtain ⟨hlast, _, hcomma⟩ := constantAt_bounds _h
  have := (hcomma _ rfl).1
  have := (hcomma _ rfl).2
  omega

theorem constantsAt_eq (start : v.Pos) : v.constantsAt start =
    match v.constantAt start with
    | .error e => ⟨[], .error e⟩
    | .ok (item, last, none) => ⟨[item], .ok last⟩
    | .ok (item, _, some comma) =>
      ⟨item :: (v.constantsAt comma).items, (v.constantsAt comma).next⟩ := by
  rw [constantsAt]
  split <;> rename_i hat <;> rw [hat]

def readConstants (keyword : v.Pos) : Reading Item :=
  if v.follows keyword .useKw then .skip (keyword + 1) else v.constantsAt keyword

/-- The constants declared at the top of the view. -/
def constants : Listing Item := v.scan (.ofList [.constKw]) v.readConstants v.lo

def constantEntry (keyword : v.Pos) : Option (Except Error (Item × Nat × Option v.Pos)) :=
  if v.follows keyword .useKw then none else some (v.constantAt keyword)

/-- A state holds the index to go on from and the comma before the next constant of a
declaration. -/
def constantCursor : Cursor (Nat × Option v.Pos) Item
  | (i, none) => v.entryStep (.ofList [.constKw]) v.constantEntry i
  | (_, some comma) => (v.constantAt comma).map fun (item, next) => some (item, some next)

end

end View

end PhpOutline
