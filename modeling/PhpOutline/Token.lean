import PhpOutline.Kind

/-!
# Tokens

A token is a piece of source text with its kind and its place: the byte offset in the source and
the line, counted from one, on which it starts.
-/

namespace PhpOutline

structure Token where
  kind : Kind
  text : String
  offset : Nat
  line : Nat
deriving DecidableEq

namespace Token

/-- The byte offset just past the token. -/
def endOffset (t : Token) : Nat := t.offset + t.text.utf8ByteSize

end Token

end PhpOutline
