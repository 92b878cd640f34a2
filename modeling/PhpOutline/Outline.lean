import PhpOutline.Import

/-!
# Outlines

An outline lists what a file declares: its namespaces, and in each the imports, constants,
functions and types, with the members of the types.
-/

namespace PhpOutline

/-- A constant or a property. The value is left out if it is not asked for. -/
structure ValueOutline where
  name : String
  line : Nat
  value : Option String
deriving DecidableEq

structure FunctionOutline where
  name : String
  line : Nat
  hasBody : Bool
deriving DecidableEq

/-- A class, interface, trait or enum, as `keyword` says. -/
structure TypeOutline where
  keyword : String
  name : String
  qualifiedName : String
  line : Nat
  parents : List String
  interfaces : List String
  constants : List ValueOutline
  properties : List ValueOutline
  methods : List FunctionOutline
deriving DecidableEq

/-- The global namespace has an empty name. -/
structure NamespaceOutline where
  name : String
  imports : List Import
  constants : List ValueOutline
  functions : List FunctionOutline
  types : List TypeOutline
deriving DecidableEq

structure FileOutline where
  path : Option String := none
  namespaces : List NamespaceOutline
deriving DecidableEq

end PhpOutline
