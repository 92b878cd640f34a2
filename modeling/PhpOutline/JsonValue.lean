/-!
# JSON text

Values and their text, indented by two blanks a level. The fields of an object keep their order.
-/

namespace PhpOutline

inductive JsonValue
  | null
  | bool (b : Bool)
  | nat (n : Nat)
  | str (s : String)
  | arr (items : List JsonValue)
  | obj (fields : List (String × JsonValue))

namespace JsonValue

/-- A value that may be absent, written as null. -/
def ofOption {α : Type} (f : α → JsonValue) : Option α → JsonValue
  | none => null
  | some a => f a

/-- One character of a string. -/
def escape (c : Char) : List Char :=
  if c = '"' then ['\\', '"']
  else if c = '\\' then ['\\', '\\']
  else if c = '\x08' then ['\\', 'b']
  else if c = '\x0c' then ['\\', 'f']
  else if c = '\n' then ['\\', 'n']
  else if c = '\r' then ['\\', 'r']
  else if c = '\t' then ['\\', 't']
  else if c.toNat < 0x20 then
    ['\\', 'u', '0', '0', Nat.digitChar (c.toNat / 16), Nat.digitChar (c.toNat % 16)]
  else [c]

def quote (s : String) : String := .ofList ('"' :: s.toList.flatMap escape ++ ['"'])

/-- A line break and the indentation of a level. -/
def newline (level : Nat) : String := .ofList ('\n' :: List.replicate (2 * level) ' ')

/-- Lines between two brackets. -/
def enclose (opener closer : String) (level : Nat) (lines : List String) : String :=
  if lines.isEmpty then opener ++ closer
  else
    opener ++ newline (level + 1) ++ ("," ++ newline (level + 1)).intercalate lines ++
      newline level ++ closer

mutual

/-- The text of a value that stands at a level of indentation. -/
def renderAt (level : Nat) : JsonValue → String
  | null => "null"
  | bool true => "true"
  | bool false => "false"
  | nat n => toString n
  | str s => quote s
  | arr items => enclose "[" "]" level (renderItems (level + 1) items)
  | obj fields => enclose "\x7b" "\x7d" level (renderFields (level + 1) fields)

def renderItems (level : Nat) : List JsonValue → List String
  | [] => []
  | v :: vs => renderAt level v :: renderItems level vs

def renderFields (level : Nat) : List (String × JsonValue) → List String
  | [] => []
  | (k, v) :: fs => (quote k ++ ": " ++ renderAt level v) :: renderFields level fs

end

def render (v : JsonValue) : String := renderAt 0 v

end JsonValue

end PhpOutline
