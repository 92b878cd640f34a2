import PhpOutline.View.Scan

/-!
# Classes, interfaces, traits and enums

A type is declared by its keyword, its name and a body in braces. The class keyword also stands in
expressions, after a double colon or in an anonymous class; those declare nothing.
-/

namespace PhpOutline

namespace View

def typeKeywords : KindSet := .ofList [.classKw, .interfaceKw, .traitKw, .enumKw]

/-- What may stand between `new` and the keyword of an anonymous class. -/
def classModifiers : KindSet := .ofList [.readonlyKw, .finalKw, .abstractKw]

section

variable (v : View)

/-- Where a body or the end of a declaration stands. -/
def bodyOrEnd : KindSet := v.graph.taxonomy.terminators.insert .openBrace

/-- Whether the keyword is part of an expression. -/
def inExpression (keyword : v.Pos) : Bool :=
  let before := v.codeBefore (v.node keyword)
  before.head?.any (·.kind == .doubleColon)
    || (before.dropWhile (classModifiers.contains ·.kind)).head?.any (·.kind == .newKw)

/-- The type that a keyword declares, and the index to go on from. -/
def typeAt (copy : Nat) (keyword : v.Pos) : Except Error (Item × Nat) := do
  let kw := v.node keyword
  let some nameAt := (v.nextCode? keyword).filter (v.kind · == .string)
    | throw (.structural kw.line (.typeWithoutName kw.text))
  let name := (v.node nameAt).text
  let some opener := (v.sibling? v.bodyOrEnd (nameAt + 1)).filter (v.kind · == .openBrace)
    | throw (.structural kw.line (.typeWithoutBody kw.text name))
  let scope ← v.scope.enterType ⟨name, v.mark opener⟩
  let body ← v.block copy opener scope
  let close ← v.closer opener
  return (⟨name, body⟩, close + 1)

def typeEntry (copy : Nat) (keyword : v.Pos) : Option (Except Error (Item × Nat)) :=
  if v.inExpression keyword then none else some (v.typeAt copy keyword)

def readType (copy : Nat) : v.Pos → Reading Item := v.entryReading (v.typeEntry copy)

/-- The types declared at the top of the view. Each `copy` cuts bodies out anew. -/
def types (copy : Nat := 0) : Listing Item := v.scan typeKeywords (v.readType copy) v.lo

def typeCursor (copy : Nat) : Cursor Nat Item := v.entryCursor typeKeywords (v.typeEntry copy)

variable {v}

theorem readType_eq (copy : Nat) (keyword : v.Pos) :
    v.readType copy keyword =
      if v.inExpression keyword then .skip (keyword + 1) else .ofItem (v.typeAt copy keyword) := by
  rw [readType, entryReading, typeEntry]
  cases v.inExpression keyword <;> rfl

end

end View

end PhpOutline
