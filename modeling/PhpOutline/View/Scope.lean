import PhpOutline.Graph

/-!
# Scopes

A scope names the namespace, the type and the member that a piece of source lies in. Each of the
three is entered at most once.
-/

namespace PhpOutline

/-- Where a graph comes from: a whole source, or the inside of a bracket of another graph. The
inside of a bracket can be cut out more than once; `copy` tells the cuttings apart. -/
inductive Arena
  | source
  | block (outer : Arena) (opener copy : Nat)
deriving DecidableEq

/-- A node together with the graph that it belongs to. -/
structure Mark where
  arena : Arena
  node : Node
deriving DecidableEq

/-- Whether two marks are the same place of the same graph. -/
def Mark.same (m n : Mark) : Bool := m.arena == n.arena && m.node.index == n.node.index

structure TypeTag where
  name : String
  opener : Mark
deriving DecidableEq

structure MemberTag where
  kind : MemberKind
  name : String
  declaredBy : Mark
deriving DecidableEq

structure Scope where
  space : Option String := none
  type : Option TypeTag := none
  member : Option MemberTag := none
deriving DecidableEq

namespace Scope

def enterNamespace (s : Scope) (name : String) : Except Error Scope :=
  match s.space with
  | some current => .error (.usage (.namespaceSet current name))
  | none => .ok { s with space := some name }

def enterType (s : Scope) (tag : TypeTag) : Except Error Scope :=
  match s.type with
  | some current => .error (.usage (.typeSet current.name tag.name))
  | none => .ok { s with type := some tag }

def enterMember (s : Scope) (tag : MemberTag) : Except Error Scope :=
  match s.member with
  | some current => .error (.usage (.memberSet current.kind current.name tag.kind tag.name))
  | none => .ok { s with member := some tag }

/-- Whether the scope lies in no type and no member. -/
def isNamespaceLevel (s : Scope) : Bool := s.type.isNone && s.member.isNone

end Scope

end PhpOutline
