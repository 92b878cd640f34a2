/-!
# TOML tables

The values of a TOML document and the rules by which headers and dotted keys build its tables. No
key is set twice, and a table is opened only in the way in which it came about.
-/

namespace PhpOutline

/-- How a table came about: by its own header, by the header of a table in it, by a dotted key, or
between braces. -/
inductive TomlOrigin
  | header | implied | dotted | inline
deriving DecidableEq

/-- A value. What number a `float` is and which day or time a `date` is does not matter here. The
elements of `tables` are opened by headers with double brackets, the last one last. -/
inductive Toml
  | str (s : String)
  | int (n : Int)
  | bool (b : Bool)
  | float
  | date
  | arr (items : List Toml)
  | table (origin : TomlOrigin) (fields : List (String × Toml))
  | tables (elements : List (List (String × Toml)))

namespace Toml

abbrev Fields := List (String × Toml)

/-- Puts a value in the place of the one under a key. -/
def replace (fs : Fields) (key : String) (v : Toml) : Fields :=
  fs.map fun f => if f.1 = key then (key, v) else f

/-- Changes the last element. -/
def mapLast? (f : Fields → Option Fields) (l : List Fields) : Option (List Fields) := do
  let last ← l.getLast?
  return l.dropLast ++ [← f last]

/-- Sets a key, under the dotted keys of `path`. -/
def assign? (fs : Fields) : (path : List String) → (key : String) → Toml → Option Fields
  | [], key, v => if (fs.lookup key).isSome then none else some (fs ++ [(key, v)])
  | p :: path, key, v =>
    match fs.lookup p with
    | none => do return fs ++ [(p, table .dotted (← assign? [] path key v))]
    | some (table .dotted inner) => do
      return replace fs p (table .dotted (← assign? inner path key v))
    | some (table .implied inner) =>
      if path.isEmpty then none
      else do return replace fs p (table .implied (← assign? inner path key v))
    | some (tables elements) =>
      if path.isEmpty then none
      else do return replace fs p (tables (← mapLast? (assign? · path key v) elements))
    | some _ => none

/-- Opens the table with the given header. -/
def openTable? (fs : Fields) : List String → Option Fields
  | [] => none
  | [key] =>
    match fs.lookup key with
    | none => some (fs ++ [(key, table .header [])])
    | some (table .implied inner) => some (replace fs key (table .header inner))
    | some _ => none
  | p :: path =>
    match fs.lookup p with
    | none => do return fs ++ [(p, table .implied (← openTable? [] path))]
    | some (table .inline _) => none
    | some (table origin inner) => do return replace fs p (table origin (← openTable? inner path))
    | some (tables elements) => do
      return replace fs p (tables (← mapLast? (openTable? · path) elements))
    | some _ => none

/-- Opens a new element of the array of tables with the given header. -/
def openElement? (fs : Fields) : List String → Option Fields
  | [] => none
  | [key] =>
    match fs.lookup key with
    | none => some (fs ++ [(key, tables [[]])])
    | some (tables elements) => some (replace fs key (tables (elements ++ [[]])))
    | some _ => none
  | p :: path =>
    match fs.lookup p with
    | none => do return fs ++ [(p, table .implied (← openElement? [] path))]
    | some (table .inline _) => none
    | some (table origin inner) => do
      return replace fs p (table origin (← openElement? inner path))
    | some (tables elements) => do
      return replace fs p (tables (← mapLast? (openElement? · path) elements))
    | some _ => none

/-- Changes the table that a header has opened. -/
def within? (f : Fields → Option Fields) (fs : Fields) : List String → Option Fields
  | [] => f fs
  | p :: path =>
    match fs.lookup p with
    | some (table origin inner) => do return replace fs p (table origin (← within? f inner path))
    | some (tables elements) => do
      return replace fs p (tables (← mapLast? (within? f · path) elements))
    | _ => none

end Toml

end PhpOutline
