import PhpOutline.Import.Clause
import PhpOutline.View.Scan

/-!
# Use statements

A use statement imports names if it stands in a namespace, at the top of a view or inside the
braces of a namespace in it. The word also lists the variables of a closure, after a closing
parenthesis, and the traits of a class; those import nothing.
-/

namespace PhpOutline

namespace View

section

variable (v : View)

/-- Whether an opening bracket is the body of a namespace. -/
def opensNamespace (opener : Nat) : Bool :=
  match v.graph.nodes[opener]? with
  | none => false
  | some n => n.prevCode.any (v.graph.isDeclarationOf · .namespaceKw)

/-- Whether a use keyword starts an import. -/
def startsImport (i : v.Pos) : Bool :=
  v.kind i == .useKw && !v.follows i .closeParen &&
    match (v.node i).parent with
    | none => v.scope.isNamespaceLevel
    | some opener => v.opensNamespace opener

/-- Whether a position ends a statement. -/
def endsStatement (i : v.Pos) : Bool := v.graph.taxonomy.terminators.contains (v.kind i)

/-- The imports of the statement with the given keyword, and the index of its end. -/
def importsAt (keyword : v.Pos) : Except Error (List Import × Nat) :=
  let line := (v.node keyword).line
  let tail := v.between (keyword + 1) v.hi
  match tail.find? v.endsStatement with
  | none => .error (.structural line .useWithoutEnd)
  | some stop =>
    match v.readClause ((tail.takeWhile (!v.endsStatement ·)).filter v.isCode) with
    | .error e => .error (.structural line e)
    | .ok imports => .ok (imports, stop)

/-- The imports from an index on. -/
def importsFrom (i : Nat) : Listing Import :=
  if i < v.hi then
    match v.pos? i with
    | none => {}
    | some p =>
      if v.startsImport p then
        match v.importsAt p with
        | .error e => ⟨[], some e⟩
        | .ok (imports, stop) => (importsFrom (max stop i + 1)).after imports
      else importsFrom (i + 1)
  else {}
termination_by v.hi - i

/-- The imports of the namespaces in the view, in order. -/
def imports : Listing Import := v.importsFrom v.lo

variable {v} in
theorem lt_of_importsAt {keyword : v.Pos} {imports : List Import} {stop : Nat}
    (h : v.importsAt keyword = .ok (imports, stop)) : keyword < stop := by
  unfold importsAt at h
  dsimp only at h
  split at h
  · cases h
  · rename_i e hend
    split at h
    · cases h
    · cases h
      exact (mem_between.mp (List.mem_of_find?_eq_some hend)).1

/-- Hands out what is pending, and reads on up to the next import statement if nothing is. -/
def importStep (i : Nat) (pending : List Import) :
    Except Error (Option (Import × Option (Nat × List Import))) :=
  match pending with
  | a :: pending => .ok (some (a, some (i, pending)))
  | [] =>
    if i < v.hi then
      match _h : v.pos? i with
      | none => .ok none
      | some p =>
        if v.startsImport p then
          match _h' : v.importsAt p with
          | .error e => .error e
          | .ok (imports, stop) => importStep (stop + 1) imports
        else importStep (i + 1) []
    else .ok none
termination_by v.hi - i
decreasing_by
  · have := lt_of_importsAt _h'
    have := val_of_pos? _h
    omega
  · omega

/-- A state holds the index to go on from and the imports that have been read. -/
def importCursor : Cursor (Nat × List Import) Import := fun (i, pending) => v.importStep i pending

end

end View

end PhpOutline
