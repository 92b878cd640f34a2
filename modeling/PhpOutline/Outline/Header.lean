import PhpOutline.Decl.Type
import PhpOutline.Resolution

/-!
# Type headers

The header of a type is the code from its keyword up to its body. The names after `extends` and
after `implements` are the types that it builds on.
-/

namespace PhpOutline

/-- The start of a list, up to and with the first element that has a property. -/
def takeThrough {α : Type} (p : α → Bool) : List α → List α
  | [] => []
  | a :: l => if p a then [a] else a :: takeThrough p l

/-- How a type builds on another. -/
inductive Base
  | parent | interface
deriving DecidableEq

/-- Whether a kind can name a type. -/
def namesType (k : Kind) : Bool :=
  [Kind.string, .nameQualified, .nameFullyQualified, .nameRelative].contains k

/-- The names in a header with the list that each belongs to; `current` is the list that has been
opened last. -/
def baseNames (current : Option Base) : List Node → List (Base × Node)
  | [] => []
  | n :: ns =>
    match n.kind with
    | .extendsKw => baseNames (some .parent) ns
    | .implementsKw => baseNames (some .interface) ns
    | k =>
      match current with
      | none => baseNames none ns
      | some b =>
        if namesType k then (b, n) :: baseNames (some b) ns else baseNames (some b) ns

namespace View

variable (v : View)

/-- The header of the type whose body opens at the mark. -/
def typeHeader (opener : Mark) : List Node :=
  match v.position? opener with
  | none => []
  | some i => (takeThrough (typeKeywords.contains ·.kind) (v.codeBefore (v.node i))).reverse

/-- The full names of the types that a header builds on. -/
def resolveBases (header : List Node) : Except Error (List (Base × String)) :=
  (baseNames none header).mapM fun (base, n) => do
    return (base, ← v.resolve .class_ ⟨v.arena, n⟩)

end View

end PhpOutline
