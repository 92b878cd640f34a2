import PhpOutline.Taxonomy

/-!
# The code before a position

Whether a word is a keyword depends on the code tokens before it: the nearest one and the one
before that. Trivia in between does not count.
-/

namespace PhpOutline.Lexeme

/-- The kinds of the nearest code token and of the one before that. -/
structure Context where
  last : Option Kind := none
  before : Option Kind := none
deriving DecidableEq

namespace Context

/-- The context after one more token. -/
def push (ctx : Context) (kind : Kind) : Context :=
  if Taxonomy.php.isTrivia kind then ctx else ⟨some kind, ctx.last⟩

/-- Whether a word, given in lower case, can only be a name here: after a member access, or where
a function or a constant gets its name. -/
def forcesName (ctx : Context) (word : String) : Bool :=
  match ctx.last with
  | some .objectOperator => true
  | some .functionKw => true
  | some .constKw => true
  | some .doubleColon => word != "class"
  | some .ampersand => ctx.before == some .functionKw
  | _ => false

end Context

end PhpOutline.Lexeme
