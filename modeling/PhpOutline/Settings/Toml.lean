import PhpOutline.Settings
import PhpOutline.Toml.Document

/-!
# Settings in a TOML document

The settings stand in the tables `lexer` and `outline`. What is missing keeps its default, and
unknown keys do not matter. A table may also be given as an array of its values in order, and a
date is a table without these keys.
-/

namespace PhpOutline

namespace Settings

open Toml

/-- The values of the given keys, from a table or from an array. -/
def valuesOf? (keys : List String) : Option Toml → Option (List (Option Toml))
  | none => some (keys.map fun _ => none)
  | some (.table _ fields) => some (keys.map fun key => fields.lookup key)
  | some .date => some (keys.map fun _ => none)
  | some (.arr items) => some (keys.mapIdx fun i _ => items[i]?)
  | some (.tables elements) => some (keys.mapIdx fun i _ => elements[i]?.map (table .header))
  | some _ => none

def boolOf? (d : Bool) : Option Toml → Option Bool
  | none => some d
  | some (.bool b) => some b
  | some _ => none

def natOf? (d : Nat) : Option Toml → Option Nat
  | none => some d
  | some (.int n) => if 0 ≤ n then some n.toNat else none
  | some _ => none

def stringsOf? (d : List String) : Option Toml → Option (List String)
  | none => some d
  | some (.arr items) => items.mapM fun
    | .str s => some s
    | _ => none
  | some _ => none

def lexerOf? (v : Option Toml) : Option LexerSettings := do
  match ← valuesOf? ["match_brackets", "retain_trivia"] v with
  | [brackets, trivia] => return ⟨← boolOf? true brackets, ← boolOf? true trivia⟩
  | _ => none

def outlineOf? (v : Option Toml) : Option OutlineSettings := do
  let d : OutlineSettings := {}
  match ← valuesOf? ["extensions", "max_file_size", "include_values"] v with
  | [extensions, size, values] =>
    return ⟨← stringsOf? d.extensions extensions, ← natOf? d.maxFileSize size,
      ← boolOf? d.includeValues values⟩
  | _ => none

/-- The settings of a document, before they are validated. -/
def ofFields? (fields : Fields) : Option Settings := do
  return ⟨← lexerOf? (fields.lookup "lexer"), ← outlineOf? (fields.lookup "outline")⟩

/-- The settings that a text in TOML gives. -/
def ofToml (source : String) : Except SettingsError Settings :=
  match (parse? source).bind ofFields? with
  | none => .error .malformed
  | some s => s.validate

end Settings

end PhpOutline
