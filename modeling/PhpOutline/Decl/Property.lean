import PhpOutline.Decl.Constant

/-!
# Properties

A property is a variable at the top of a type's body. Its name goes without the dollar sign, and
its view is its default value, empty if it has none.
-/

namespace PhpOutline

namespace View

section

variable (v : View)

/-- Whether the view is the body of the type that it lies in. -/
def isTypeBody : Bool :=
  match v.scope.type, v.anchor with
  | some tag, some anchor => tag.opener.same anchor
  | _, _ => false

/-- The name of a property, from its variable. -/
def propertyName (variableText : String) : String :=
  .ofList (variableText.toList.dropWhile (· == '$'))

/-- The property that a variable declares, and the index to go on from. -/
def propertyAt (i : v.Pos) : Except Error (Item × Nat) := do
  let name := propertyName (v.node i).text
  let scope ← v.scope.enterMember ⟨.property, name, v.mark i⟩
  match (v.nextCode? i).filter (v.kind · == .equals) with
  | none => return (⟨name, v.span (i + 1) (i + 1) scope⟩, i + 1)
  | some equals =>
    let stop := ((v.sibling? v.valueEnd (equals + 1)).map (·.val)).getD v.hi
    let (lo, hi) := v.valueRange equals stop
    return (⟨name, v.span lo hi scope⟩, stop)

/-- The properties of a type's body; other views have none to list. -/
def properties : Except Error (Listing Item) :=
  if v.isTypeBody then
    .ok (v.scan (.ofList [.variableName]) (fun i => .ofItem (v.propertyAt i)) v.lo)
  else .error (.usage .notATypeBody)

def propertyCursor : Cursor Nat Item :=
  v.entryCursor (.ofList [.variableName]) fun i => some (v.propertyAt i)

end

end View

end PhpOutline
