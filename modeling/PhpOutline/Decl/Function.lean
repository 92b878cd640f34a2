import PhpOutline.Decl.Type

/-!
# Functions

A function is declared by its keyword and a name, with an ampersand between them if it returns a
reference. It has a body in braces, or none if the declaration just ends. A closure has no name,
and an imported function declares nothing.
-/

namespace PhpOutline

namespace View

section

variable (v : View)

/-- The name after a function keyword. -/
def functionName? (keyword : v.Pos) : Option v.Pos :=
  let first := v.nextCode? keyword
  let nameAt := if first.any (v.kind · == .ampersand) then first.bind v.nextCode? else first
  nameAt.filter (v.kind · == .string)

/-- The function with the given keyword and name, and the index to go on from. -/
def functionAt (copy : Nat) (keyword nameAt : v.Pos) : Except Error (Item × Nat) := do
  let name := (v.node nameAt).text
  let some stop := v.sibling? v.bodyOrEnd (nameAt + 1)
    | throw (.structural (v.node keyword).line (.functionWithoutBody name))
  let scope ← v.scope.enterMember ⟨.function, name, v.mark nameAt⟩
  if v.kind stop = .openBrace then
    let close ← v.closer stop
    let body ← v.block copy stop scope
    return (⟨name, body⟩, close + 1)
  else
    return (⟨name, v.span stop stop scope⟩, stop + 1)

def functionEntry (copy : Nat) (keyword : v.Pos) : Option (Except Error (Item × Nat)) :=
  if v.follows keyword .useKw then none
  else (v.functionName? keyword).map (v.functionAt copy keyword)

def readFunction (copy : Nat) : v.Pos → Reading Item := v.entryReading (v.functionEntry copy)

/-- The functions declared at the top of the view. Each `copy` cuts bodies out anew. -/
def functions (copy : Nat := 0) : Listing Item :=
  v.scan (.ofList [.functionKw]) (v.readFunction copy) v.lo

def functionCursor (copy : Nat) : Cursor Nat Item :=
  v.entryCursor (.ofList [.functionKw]) (v.functionEntry copy)

variable {v}

theorem readFunction_eq (copy : Nat) (keyword : v.Pos) :
    v.readFunction copy keyword =
      if v.follows keyword .useKw then .skip (keyword + 1)
      else
        match v.functionName? keyword with
        | none => .skip (keyword + 1)
        | some nameAt => .ofItem (v.functionAt copy keyword nameAt) := by
  rw [readFunction, entryReading, functionEntry]
  cases v.follows keyword .useKw with
  | true => rfl
  | false => cases v.functionName? keyword <;> rfl

end

end View

end PhpOutline
